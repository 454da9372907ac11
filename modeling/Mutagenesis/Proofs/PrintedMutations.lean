import Mutagenesis.CommandLine
import Mutagenesis.Proofs.CatalogueLayers
import Mutagenesis.Proofs.FoundMutations
import Mutagenesis.Proofs.JsonForms
import Mutagenesis.Proofs.JsonText

/-!
# What is printed is read back

The JSON form of every value is decoded to the value, with its fields in the order in which they are
written and in increasing order (`ReadsBack`). So the mutations that a search prints are the ones
that later tasks read from that text (`CommandLine.givenMutations_printed`), and that later requests
give back (`Request.decode_about`).
-/

set_option autoImplicit false

namespace Mutagenesis

open Text (byteLength)

/-! ## Mutations that are found -/

/-- Both numbers of a location are machine words, so that they have numerals. -/
def Location.Fits (l : Location) : Prop :=
  l.line < Numeral.limit ∧ l.column < Numeral.limit

instance (l : Location) : Decidable l.Fits :=
  inferInstanceAs (Decidable (_ ∧ _))

/-- Every number of a mutation is a machine word. -/
def Mutation.Fits (m : Mutation) : Prop :=
  m.index < Numeral.limit ∧ m.location.span.start.Fits ∧ m.location.span.stop.Fits

instance (m : Mutation) : Decidable m.Fits :=
  inferInstanceAs (Decidable (_ ∧ _ ∧ _))

/-- The location of a mutation that is found can be read back. -/
theorem Finder.readable_of_mem_items {path : String} {text : List Char} {lines : Option (List Nat)}
    {os : List Operator} {m : Mutation} (hpath : path ≠ "") (hfits : m.Fits)
    (h : .ok m ∈ items Template.matcher path text lines os) : m.location.Readable := by
  obtain ⟨o, -, t, ms, -, hms, found, hfound, hm⟩ := found_of_mem_items h
  obtain ⟨before, middle, after, -, -, hspan, -⟩ :=
    Template.parts_of_mem_findMatches (Template.findMatches_of_matcher hms) hfound
  have hlocation : m.location = ⟨path, found.span⟩ := by rw [hm]
  refine ⟨by rwa [hlocation], ⟨?_, hfits.2.1⟩, ⟨?_, hfits.2.2⟩, ?_⟩
  · rw [hlocation, hspan]
    exact SourceText.line_locationAt_pos text _
  · rw [hlocation, hspan]
    exact SourceText.line_locationAt_pos text _
  · rw [hlocation, hspan]
    exact SourceText.locationAt_le text (by simp)

/-! ## The text of a list of mutations -/

variable {ms : List Mutation}

namespace Json

/-- The form of bindings can be read. -/
theorem readable_bindings (b : Bindings) {depth : Nat} (h : 1 < depth) :
    Readable .everything depth b.toJson := by
  refine ⟨h, readableFields_of_forall fun f hf => ⟨.everything, rfl, ?_⟩⟩
  obtain ⟨entry, -, rfl⟩ := List.mem_map.mp hf
  trivial

/-- The form of a mutation can be read. -/
theorem readable_mutation {m : Mutation} (h : m.index < Numeral.limit) {depth : Nat}
    (hdepth : 2 < depth) : Readable Mutation.shape.want depth m.toJson := by
  refine ⟨by omega, readableFields_of_forall ?_⟩
  simp only [List.forall_mem_cons]
  exact ⟨⟨.everything, rfl, trivial⟩, ⟨.everything, rfl, m.index, rfl, h⟩,
    ⟨.everything, rfl, trivial⟩, ⟨.everything, rfl, readable_bindings _ (by omega)⟩, by simp⟩

/-- The form of a list of mutations can be read. -/
theorem readable_mutations (h : ∀ m ∈ ms, m.index < Numeral.limit) :
    Readable (.list Mutation.shape.want) depthLimit (.array (ms.map Mutation.toJson)) := by
  refine ⟨by decide, readableItems_list fun j hj => ?_⟩
  obtain ⟨m, hm, rfl⟩ := List.mem_map.mp hj
  exact readable_mutation (h m hm) (by decide)

end Json

namespace CommandLine

/-- A path leads to a text: on the standard input, or in a file on the disk. -/
def Holds (d : Disk) (s : Surroundings) (path text : String) : Prop :=
  if isStandardInput path then s.input = text else d.text path = .ok text

/-- Mutations that were printed are read back from the file. -/
theorem readMutations_printed {d : Disk} {s : Surroundings} {path : String} {lines : List String}
    (hms : ∀ m ∈ ms, m.index < Numeral.limit ∧ m.location.Readable)
    (h : Holds d s path (shown true (.array (ms.map Mutation.toJson)) lines)) :
    readMutations d s path = .ok ms := by
  have hdecode : Json.decodeList Mutation.decode (.array (ms.map Mutation.toJson)) = .ok ms :=
    Json.decodeList_form Json.rearranges_id fun m hm =>
      Mutation.decodeIn_form Json.rearranges_id (hms m hm).2 false
  have hdocument : decodeDocument path (shown true (.array (ms.map Mutation.toJson)) lines)
      (.list Mutation.shape.want) (Json.decodeList Mutation.decode) = .ok ms :=
    decodeDocument_pretty (Json.readable_mutations fun m hm => (hms m hm).1) hdecode path
      (List.all_eq_true.mp (by decide))
  unfold Holds at h
  unfold readMutations
  split at h
  · next hinput =>
    rw [if_pos hinput, h]
    exact hdocument
  · next hinput =>
    rw [if_neg hinput, h]
    exact hdocument

/-- The mutations that a document on the disk or on the standard input holds are those that were
printed into it. -/
theorem givenMutations_printed {s : Surroundings} {path : String} {lines : List String}
    {t : Session LocalStore} (hms : ∀ m ∈ ms, m.index < Numeral.limit ∧ m.location.Readable)
    (h : Holds t.store.disk s path (shown true (.array (ms.map Mutation.toJson)) lines)) :
    givenMutations s path t = .ok ms t := by
  unfold givenMutations
  rw [Action.bind_of_ok (show (get : Action (Session LocalStore) _) t = .ok t t from rfl),
    readMutations_printed hms h]
  rfl

end CommandLine

/-! ## Requests about mutations -/

/-- A request that says what to do with mutations of a snapshot. -/
def Request.about (tag snapshot : String) (mutations : Json) : Json :=
  .object [("op", .string tag), ("snapshot", .string snapshot), ("mutations", mutations)]

/-- A request that is sorted twice is sorted once. -/
theorem Request.sorted_about (tag snapshot : String) (mutations : Json) :
    (about tag snapshot mutations.sorted).sorted = (about tag snapshot mutations).sorted := by
  rw [about, about, Json.sorted_object, Json.sorted_object]
  simp only [Json.sortedFields, Json.sorted_sorted]

/-- A request that gives the mutations of an answer back is decoded to one about them. -/
theorem Request.decode_about {f : Json → Json} (hf : Json.Rearranges f)
    (h : ∀ m ∈ ms, m.location.Readable) (snapshot tag : String) {v : Json.Variant}
    (hv : alternatives.variants.find? (·.tag = tag) = some v) (hfields : v.fields = mutationFields)
    {make : String → List Mutation → Request}
    (hmake : ∀ record, ofRecord tag record = do
      return make (← record.get "snapshot" Json.decodeString)
        (← record.get "mutations" decodeMutations)) :
    decode (f (about tag snapshot (.array (ms.map Mutation.toJson)))) = .ok (make snapshot ms) := by
  have hsnapshot := Json.decodeString_form hf snapshot
  have hmutations : decodeMutations (f (.array (ms.map Mutation.toJson))) = .ok ms :=
    Json.decodeList_form hf fun m hm => Mutation.decodeIn_form hf (h m hm) true
  obtain ⟨record, hread, hlookup⟩ := Json.Tagged.read_rearranged hf alternatives "op" tag
    [("snapshot", .string snapshot), ("mutations", .array (ms.map Mutation.toJson))] rfl (by simp)
    hv
    (by
      rw [hfields]
      simp only [List.forall_mem_cons]
      exact ⟨⟨_, rfl, Json.Field.check_required hsnapshot⟩,
        ⟨_, rfl, Json.Field.check_required hmutations⟩, by simp⟩)
    (by simp [hfields, mutationFields, Json.Field.required])
  rw [decode, about, hread, Except.ok_bind]
  dsimp only
  rw [hmake, Json.Record.get_eq (hlookup "snapshot") hsnapshot,
    Json.Record.get_eq (hlookup "mutations") hmutations]
  rfl

/-- The JSON form of a value is decoded to the value, both as it is written and with its fields in
increasing order. -/
def ReadsBack {α : Type} (decode : Json.Decoder α) (toJson : α → Json) (a : α) : Prop :=
  decode (toJson a) = .ok a ∧ decode (toJson a).sorted = .ok a

/-- What is read back in every form is read back as it is printed. -/
theorem readsBack_of_form {α : Type} {decode : Json.Decoder α} {toJson : α → Json} {a : α}
    (h : ∀ f, Json.Rearranges f → decode (f (toJson a)) = .ok a) : ReadsBack decode toJson a :=
  ⟨h id Json.rearranges_id, h Json.sorted Json.rearranges_sorted⟩

namespace Installation

variable {σ : Type} {i : Installation σ} {name path : String} {filter : SearchFilter}
  {t t' : Session σ} {ms : List Mutation}

/-- The places of mutations that a search finds can be read. -/
theorem readable_of_mutations (hi : i.matcher = Template.matcher) (hpath : path ≠ "")
    (h : i.mutations name path filter t = .ok ms t') (hfits : ∀ m ∈ ms, m.Fits) :
    ∀ m ∈ ms, m.location.Readable := by
  obtain ⟨s, store, text, os, -, -, -, hitems⟩ := mutations_eq_ok h
  intro m hm
  exact Finder.readable_of_mem_items hpath (hfits m hm) (hi ▸ hitems m hm)

/-- What a search answers is read back by the requests that take mutations. -/
theorem handle_read_back (hi : i.matcher = Template.matcher) (hpath : path ≠ "") {j : Json}
    (h : i.handle (.mutations name path filter) t = .ok j t') :
    ∃ ms, i.mutations name path filter t = .ok ms t' ∧ ((∀ m ∈ ms, m.Fits) → ∀ snapshot,
      Request.decode (Request.about "replacements" snapshot j.sorted).sorted =
        .ok (.replacements snapshot ms) ∧
      Request.decode (Request.about "diff" snapshot j.sorted).sorted = .ok (.diff snapshot ms) ∧
      Request.decode (Request.about "mutate" snapshot j.sorted).sorted =
        .ok (.mutate snapshot ms)) := by
  obtain ⟨ms, t₁, hms, h⟩ := Action.bind_eq_ok_iff.mp h
  obtain ⟨rfl, rfl⟩ := Action.pure_eq_ok_iff.mp h
  refine ⟨ms, hms, fun hfits snapshot => ?_⟩
  have hreadable := readable_of_mutations hi hpath hms hfits
  simp only [Request.sorted_about]
  have hdecode := Request.decode_about Json.rearranges_sorted hreadable snapshot
  exact ⟨hdecode "replacements" rfl rfl fun _ => rfl, hdecode "diff" rfl rfl fun _ => rfl,
    hdecode "mutate" rfl rfl fun _ => rfl⟩

end Installation

/-- What a search prints is read back by the tasks that take mutations. -/
theorem CommandLine.perform_read_back {i : Installation LocalStore} {s : Surroundings}
    {name path output : String} {filter : SearchFilter} {t t' : Session LocalStore}
    (hi : i.matcher = Template.matcher) (hpath : path ≠ "")
    (h : perform i s true (.mutations name path filter) t = .ok output t') :
    ∃ ms, i.mutations name path filter t = .ok ms t' ∧ ((∀ m ∈ ms, m.Fits) →
      ∀ s' document (u : Session LocalStore), Holds u.store.disk s' document output →
        givenMutations s' document u = .ok ms u) := by
  obtain ⟨ms, t₁, hms, h⟩ := Action.bind_eq_ok_iff.mp h
  obtain ⟨rfl, rfl⟩ := Action.pure_eq_ok_iff.mp h
  refine ⟨ms, hms, fun hfits s' document u hholds => givenMutations_printed ?_ hholds⟩
  exact fun m hm => ⟨(hfits m hm).1, Installation.readable_of_mutations hi hpath hms hfits m hm⟩

/-- Every value is read back from its JSON form, whatever its strings are, if its locations can be
written: the decoders never refuse what the encoders write. In particular the mutations that a
search finds in a file are read back by the tasks and the requests that take mutations. -/
theorem forms_read_back :
    (∀ m : Mutation, m.location.Readable → ReadsBack Mutation.decode Mutation.toJson m) ∧
    (∀ r : Replacement, r.location.Readable →
      ReadsBack Replacement.decode Replacement.toJson r) ∧
    (∀ m : Mutant, (∀ mutation ∈ m.mutations, mutation.location.Readable) →
      ReadsBack Mutant.decode Mutant.toJson m) ∧
    (∀ s, ReadsBack Snapshot.decode Snapshot.toJson s) ∧
    (∀ l, ReadsBack Language.decode Language.toJson l) ∧
    (∀ t, ReadsBack Transformation.decode Transformation.toJson t) ∧
    (∀ c, ReadsBack Constraint.decode Constraint.toJson c) ∧
    (∀ given o : Operator, given.validate = .ok o → ReadsBack Operator.decode Operator.toJson o) ∧
    (∀ (i : Installation LocalStore) (s : CommandLine.Surroundings) (name path : String)
      (filter : SearchFilter) (t t' : Session LocalStore) (output : String),
      i.matcher = Template.matcher → path ≠ "" →
      CommandLine.perform i s true (.mutations name path filter) t = .ok output t' →
      ∃ ms, i.mutations name path filter t = .ok ms t' ∧ ((∀ m ∈ ms, m.Fits) →
        ∀ s' document (u : Session LocalStore),
          CommandLine.Holds u.store.disk s' document output →
            CommandLine.givenMutations s' document u = .ok ms u)) ∧
    (∀ (σ : Type) (i : Installation σ) (name path : String) (filter : SearchFilter)
      (t t' : Session σ) (answer : Json), i.matcher = Template.matcher → path ≠ "" →
      i.handle (.mutations name path filter) t = .ok answer t' →
      ∃ ms, i.mutations name path filter t = .ok ms t' ∧ ((∀ m ∈ ms, m.Fits) → ∀ snapshot,
        Request.decode (Request.about "replacements" snapshot answer.sorted).sorted =
          .ok (.replacements snapshot ms) ∧
        Request.decode (Request.about "diff" snapshot answer.sorted).sorted =
          .ok (.diff snapshot ms) ∧
        Request.decode (Request.about "mutate" snapshot answer.sorted).sorted =
          .ok (.mutate snapshot ms))) := by
  refine ⟨fun m h => ?_, fun r h => ?_, fun m h => ?_, fun s => ?_, fun l => ?_, fun t => ?_,
    fun c => ?_, fun given o h => ?_, ?_, ?_⟩
  · exact readsBack_of_form fun f hf => Mutation.decodeIn_form hf h false
  · exact readsBack_of_form fun f hf => Replacement.decode_form hf h
  · exact readsBack_of_form fun f hf => Mutant.decode_form hf h
  · exact readsBack_of_form fun f hf => Snapshot.decode_form hf s
  · exact readsBack_of_form fun f hf => Language.decode_form hf l
  · exact readsBack_of_form fun f hf => Transformation.decode_form hf t
  · exact readsBack_of_form fun f hf => Constraint.decode_form hf c
  · obtain ⟨rfl, -⟩ := Operator.validate_eq_ok h
    exact readsBack_of_form fun f hf => Operator.decode_form hf h
  · intro i s name path filter t t' output hi hpath h
    exact CommandLine.perform_read_back hi hpath h
  · intro σ i name path filter t t' answer hi hpath h
    exact Installation.handle_read_back hi hpath h

namespace PrintSample

/-- The name of the file has an at sign in it, and the texts hold characters that are escaped. -/
def mutation : Mutation :=
  ⟨"a\"b", 1, ⟨"x@y.c", ⟨1, 0⟩, ⟨2, 3⟩⟩, .ofList [("b", "\n"), ("a", "é\\")]⟩

def mutant : Mutant :=
  ⟨⟨List.replicate 32 ⟨7, by decide⟩, rfl⟩, "base", [mutation, mutation]⟩

def installation : Installation LocalStore :=
  { catalogue := Installation.SearchSample.catalogue
    matcher := Template.matcher
    backend := LocalStore.backend }

def session : Session LocalStore where
  store :=
    { disk := ⟨.sub "root" (.sub "images" (.sub "base"
        (.file "f.c" (.text "é\n= x + y;\n") .empty) .empty) .empty) .empty, []⟩
      root := "/root"
      snapshots := [{ name := "base", image := "base" }] }
  nextId := 0

theorem mutation_readable : mutation.location.Readable :=
  ⟨by decide, ⟨by decide, by decide, by decide⟩, ⟨by decide, by decide, by decide⟩, by decide⟩

theorem prints : (CommandLine.perform installation {} true (.mutations "base" "f.c" {})).Ensures
    session (fun _ _ => True) (fun _ _ => False) := by
  decide +kernel

theorem finds : (installation.mutations "base" "f.c" {}).Ensures session
    (fun ms _ => (∀ m ∈ ms, m.Fits) ∧
      ms.map (·.location.text) = ["f.c@2:2::2:7", "f.c@2:2::2:3"]) (fun _ _ => False) := by
  decide +kernel

theorem answers :
    (Installation.SearchSample.installation.handle (.mutations "base" "f.c" {})).Ensures
      Installation.SearchSample.session (fun _ _ => True) (fun _ _ => False) := by
  decide +kernel

theorem answers_found : (Installation.SearchSample.installation.mutations "base" "f.c" {}).Ensures
    Installation.SearchSample.session (fun ms _ => (∀ m ∈ ms, m.Fits) ∧ ms.length = 2)
      (fun _ _ => False) := by
  decide +kernel

end PrintSample

/-- The sample values are read back from their forms. -/
theorem forms_read_back_sample :
    ReadsBack Mutation.decode Mutation.toJson PrintSample.mutation ∧
    ReadsBack Mutant.decode Mutant.toJson PrintSample.mutant ∧
    ReadsBack Replacement.decode Replacement.toJson ⟨PrintSample.mutation.location, "\t"⟩ ∧
    ReadsBack Operator.decode Operator.toJson Installation.SearchSample.swap ∧
    (∃ output t' ms, CommandLine.perform PrintSample.installation {} true
        (.mutations "base" "f.c" {}) PrintSample.session = .ok output t' ∧
      ms.map (·.location.text) = ["f.c@2:2::2:7", "f.c@2:2::2:3"] ∧
      CommandLine.givenMutations { input := output } "-" t' = .ok ms t') ∧
    ∃ answer t' ms, Installation.SearchSample.installation.handle (.mutations "base" "f.c" {})
        Installation.SearchSample.session = .ok answer t' ∧ ms.length = 2 ∧
      Request.decode (Request.about "diff" "base" answer.sorted).sorted =
        .ok (.diff "base" ms) := by
  obtain ⟨hmutation, hreplacement, hmutant, -, -, -, -, hoperator, hperform, hhandle⟩ :=
    forms_read_back
  refine ⟨hmutation _ PrintSample.mutation_readable, hmutant _ ?_,
    hreplacement _ PrintSample.mutation_readable,
    hoperator Installation.SearchSample.swap _ (Except.eq_ok_of_toOption (by decide +kernel)),
    ?_, ?_⟩
  · simpa [PrintSample.mutant] using PrintSample.mutation_readable
  · obtain ⟨output, t', houtput, -⟩ := PrintSample.prints.exists_ok
    obtain ⟨ms, hms, hread⟩ := hperform _ _ "base" "f.c" {} _ t' output rfl (by decide) houtput
    obtain ⟨hfits, hlocations⟩ := PrintSample.finds.of_ok hms
    exact ⟨output, t', ms, houtput, hlocations, hread hfits { input := output } "-" t' rfl⟩
  · obtain ⟨answer, t', hanswer, -⟩ := PrintSample.answers.exists_ok
    obtain ⟨ms, hms, hread⟩ := hhandle _ _ "base" "f.c" {} _ t' answer rfl (by decide) hanswer
    obtain ⟨hfits, hlength⟩ := PrintSample.answers_found.of_ok hms
    exact ⟨answer, t', ms, hanswer, hlength, (hread hfits "base").2.1⟩

end Mutagenesis
