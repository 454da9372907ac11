import Mutagenesis.Proofs.CatalogueLayers
import Mutagenesis.Proofs.LazySearch

/-!
# Mutations that are found can be carried out

A mutation that a search finds comes from a match of a transformation in the catalogue
(`found_of_mem_items`). Its location divides the text, its replacement exists exactly if every hole
of the result template is one of the match template, and that replacement changes nothing but the
span of the match (`mutations_materialize`).
-/

set_option autoImplicit false

namespace Mutagenesis

open Text (byteLength)

namespace Finder

variable {c : Catalogue} {path : String} {text : List Char} {lines : Option (List Nat)}
  {matcher : Matcher} {m : Mutation}

/-- The operators of a search are in the catalogue. -/
theorem mem_of_operators {filter : SearchFilter} {os : List Operator} {o : Operator}
    (hc : c.WellFormed) (h : operators c path filter = .ok os) (ho : o ∈ os) : o ∈ c.operators := by
  dsimp only [operators] at h
  split at h
  all_goals
    obtain ⟨language, -, h⟩ := Except.bind_eq_ok_iff.mp h
    split at h
    · obtain ⟨name, -, hget⟩ := exists_of_mem_right (Except.mapM_eq_ok_iff.mp h) ho
      exact ((Operators.get_eq_ok_iff hc.operatorNames).mp hget).1
    · cases h
      exact (List.mem_filter.mp ho).1

/-- A mutation among the items of a search comes from a match of a transformation. -/
theorem found_of_mem_items {os : List Operator} (h : .ok m ∈ items matcher path text lines os) :
    ∃ o ∈ os, ∃ t ms, o.transformations[m.index]? = some t ∧
      matcher text t.matchTemplate = .ok ms ∧ ∃ found ∈ ms,
        m = ⟨o.name, m.index, ⟨path, found.span⟩, found.bindings⟩ := by
  obtain ⟨o, ho, h⟩ := List.mem_flatMap.mp h
  obtain ⟨⟨t, index⟩, ht, h⟩ := List.mem_flatMap.mp h
  dsimp only [transformationItems] at h
  split at h
  · next ms hms =>
    obtain ⟨found, hfound, h⟩ := List.mem_flatMap.mp h
    unfold matchItems at h
    split at h
    · split at h
      · cases List.mem_singleton.mp h
        exact ⟨o, ho, t, ms, List.mem_zipIdx_iff_getElem?.mp ht, hms, found,
          (List.mem_filter.mp hfound).1, rfl⟩
      · cases h
    all_goals cases List.mem_singleton.mp h
  · cases List.mem_singleton.mp h

end Finder

/-- The replacement of a mutation exists exactly if its result template can be filled. -/
theorem Catalogue.exists_replacement_iff {c : Catalogue} {m : Mutation} {o : Operator}
    {t : Transformation} (ho : c.operators.get m.operator = .ok o)
    (ht : o.transformation m.index = .ok t) :
    (∃ r, c.replacement m = .ok r) ↔
      ∀ hole ∈ Template.holes t.resultTemplate.toList, (m.arguments.get? hole).isSome = true := by
  rw [← Template.exists_substitute_iff, replacement, ho]
  simp only [bind, Except.bind, ht]
  cases Template.substitute t.resultTemplate.toList m.arguments.get? <;>
    simp [formatted, pure, Except.pure]

theorem Catalogue.location_of_replacement {c : Catalogue} {m : Mutation} {r : Replacement}
    (h : c.replacement m = .ok r) : r.location = m.location := by
  obtain ⟨_, -, h⟩ := Except.bind_eq_ok_iff.mp h
  obtain ⟨_, -, h⟩ := Except.bind_eq_ok_iff.mp h
  obtain ⟨_, -, h⟩ := Except.bind_eq_ok_iff.mp h
  cases h
  rfl

namespace Installation

variable {σ : Type} {i : Installation σ} {s : Snapshot} {path text name : String}
  {filter : SearchFilter} {t t' : Session σ} {ms : List Mutation} {m : Mutation}

/-- A mutation of a file with a text can be carried out: its operator and its transformation exist,
its location divides the text around something, its replacement exists exactly if each hole of the
result template is one of the match template, and this then stands in the place of what is at the
location, while all else stays. -/
def Materializes (i : Installation σ) (s : Snapshot) (path : String) (text : List Char)
    (t : Session σ) (m : Mutation) : Prop :=
  ∃ o transformation before middle after,
    i.catalogue.operators.get m.operator = .ok o ∧
    o.transformation m.index = .ok transformation ∧
    m.location.file = path ∧
    text = before ++ middle ++ after ∧
    byteLength before < byteLength (before ++ middle) ∧
    SourceText.offset text m.location.span.start = .ok (byteLength before) ∧
    SourceText.offset text m.location.span.stop = .ok (byteLength (before ++ middle)) ∧
    ((∃ r, i.catalogue.replacement m = .ok r) ↔
      ∀ hole ∈ Template.holes transformation.resultTemplate.toList,
        hole ∈ Template.holes transformation.matchTemplate.toList) ∧
    ∀ r, i.catalogue.replacement m = .ok r →
      i.applyReplacements s path [r] t = .ok (before ++ r.text.toList ++ after) t

/-- What a search finds in a kept source can be carried out there. -/
theorem materializes_of_mem_items {lines : Option (List Nat)} {os : List Operator}
    (hi : i.catalogue.WellFormed) (hos : ∀ o ∈ os, o ∈ i.catalogue.operators)
    (hkept : t.sources.text? s.name path = some text)
    (h : .ok m ∈ Finder.items Template.matcher path text.toList lines os) :
    i.Materializes s path text.toList t m := by
  obtain ⟨o, ho, transformation, ms, ht, hms, found, hfound, hm⟩ := Finder.found_of_mem_items h
  obtain ⟨before, middle, after, htext, hmiddle, hspan, hbound⟩ :=
    Template.parts_of_mem_findMatches (Template.findMatches_of_matcher hms) hfound
  have hget : i.catalogue.operators.get m.operator = .ok o := by
    rw [hm]
    exact (Operators.get_eq_ok_iff hi.operatorNames).mpr ⟨hos o ho, rfl⟩
  have htransformation : o.transformation m.index = .ok transformation := by
    rw [Operator.transformation, ht]
  have hlocation : m.location = ⟨path, found.span⟩ := by rw [hm]
  have hstart : SourceText.offset text.toList m.location.span.start =
      .ok (byteLength before) := by
    rw [hlocation, hspan, htext, List.append_assoc]
    exact SourceText.offset_locationAt before (middle ++ after)
  have hstop : SourceText.offset text.toList m.location.span.stop =
      .ok (byteLength (before ++ middle)) := by
    rw [hlocation, hspan, htext]
    exact SourceText.offset_locationAt (before ++ middle) after
  refine ⟨o, transformation, before, middle, after, hget, htransformation, by rw [hlocation], htext,
    ?_, hstart, hstop, ?_, fun r hr => ?_⟩
  · have := Text.byteLength_pos hmiddle
    rw [Text.byteLength_append]
    omega
  · rw [Catalogue.exists_replacement_iff hget htransformation, hm]
    exact forall₂_congr fun hole _ => hbound hole
  · have hr' := Catalogue.location_of_replacement hr
    rw [htext, ← hr'] at hstart hstop
    rw [applyReplacements, Action.bind_of_ok (Session.readSource_of_kept hkept), htext,
      SourceText.splice_singleton hstart hstop]
    rfl

/-- A search that succeeds reads the file, and each mutation it gives is among its items. -/
theorem mutations_eq_ok (h : i.mutations name path filter t = .ok ms t') :
    ∃ s store text os, i.backend.lookup name t.store = .ok s store ∧
      Finder.operators i.catalogue path filter = .ok os ∧
      t'.sources.text? s.name path = some text ∧
      ∀ m ∈ ms, .ok m ∈ Finder.items i.matcher path text.toList filter.lines os := by
  obtain ⟨s, t₁, hsnapshot, h⟩ := Action.bind_eq_ok_iff.mp h
  unfold snapshot at hsnapshot
  obtain ⟨store, hlookup, rfl⟩ := Action.on_eq_ok_iff.mp hsnapshot
  obtain ⟨items, t₂, hitems, h⟩ := Action.bind_eq_ok_iff.mp h
  obtain ⟨hms, rfl⟩ := Action.ofExcept_eq_ok_iff.mp h
  obtain ⟨search, t₃, hsearch, hitems⟩ := Action.bind_eq_ok_iff.mp hitems
  obtain ⟨rfl, rfl⟩ := Action.pure_eq_ok_iff.mp hitems
  obtain ⟨os, text, hos, htext, rfl⟩ := search_eq_ok_iff.mp hsearch
  rw [Finder.Search.items_start] at hms
  refine ⟨s, store, text, os, hlookup, hos, Session.kept_of_readSource htext, fun m hm => ?_⟩
  obtain ⟨item, hitem, hid⟩ := exists_of_mem_right (Except.mapM_eq_ok_iff.mp hms) hm
  exact hid ▸ hitem

/-- With a catalogue built by any layers, any backend, snapshot, file and filter, each mutation that
a search finds can be carried out. -/
theorem mutations_materialize {σ : Type} (i : Installation σ) (layers : List Layer)
    (hlayers : layers.foldlM Catalogue.extend .empty = .ok i.catalogue)
    (hmatcher : i.matcher = Template.matcher) (name path : String) (filter : SearchFilter)
    (t t' : Session σ) (ms : List Mutation) (h : i.mutations name path filter t = .ok ms t') :
    ∃ s store text, i.backend.lookup name t.store = .ok s store ∧
      t'.sources.text? s.name path = some text ∧
      ∀ m ∈ ms, i.Materializes s path text.toList t' m := by
  have hwell : i.catalogue.WellFormed :=
    Catalogue.wellFormed_of_layers Catalogue.wellFormed_empty hlayers
  obtain ⟨s, store, text, os, hlookup, hos, hkept, hitems⟩ := mutations_eq_ok h
  rw [hmatcher] at hitems
  refine ⟨s, store, text, hlookup, hkept, fun m hm => ?_⟩
  exact materializes_of_mem_items hwell (fun o ho => Finder.mem_of_operators hwell hos ho) hkept
    (hitems m hm)

namespace SearchSample

/-- The second result template has a hole that its match template does not have. -/
def swap : Operator :=
  ⟨"swap", .ofList ["c"], [⟨":[a] + :[b]", ":[b] + :[a]", []⟩, ⟨"x", ":[z]", []⟩]⟩

def catalogue : Catalogue :=
  ⟨[⟨"c", .ofList [".c"]⟩], [swap]⟩

def installation : Installation MemoryStore :=
  { catalogue := catalogue, matcher := Template.matcher, backend := MemoryStore.backend }

def session : Session MemoryStore where
  store :=
    { snapshots := [{ name := "base", image := "image" }]
      images := [⟨"image", [("f.c", "é\n= x + y;\n")]⟩] }
  nextId := 0

end SearchSample

/-- The sample search finds two mutations, of which the second has no replacement. -/
theorem mutations_materialize_sample :
    [(⟨some (.text "1.0"), SearchSample.catalogue.languages, SearchSample.catalogue.operators⟩ :
      Layer)].foldlM Catalogue.extend .empty = .ok SearchSample.catalogue ∧
    ∃ ms t' s text, SearchSample.installation.mutations "base" "f.c" {} SearchSample.session =
        .ok ms t' ∧
      ms.map (fun m => (m.index, m.location.span.start)) = [(0, ⟨2, 2⟩), (1, ⟨2, 2⟩)] ∧
      ms.map (fun m => (SearchSample.catalogue.replacement m).toOption.map (·.text)) =
        [some "y + x", none] ∧
      ∀ m ∈ ms, SearchSample.installation.Materializes s "f.c" text t' m := by
  have hlayers : [(⟨some (.text "1.0"), SearchSample.catalogue.languages,
      SearchSample.catalogue.operators⟩ : Layer)].foldlM Catalogue.extend .empty =
        .ok SearchSample.catalogue := Except.eq_ok_of_toOption (by decide +kernel)
  have hfound : (SearchSample.installation.mutations "base" "f.c" {}).Ensures SearchSample.session
      (fun ms _ => ms.map (fun m => (m.index, m.location.span.start)) = [(0, ⟨2, 2⟩), (1, ⟨2, 2⟩)] ∧
        ms.map (fun m => (SearchSample.catalogue.replacement m).toOption.map (·.text)) =
          [some "y + x", none])
      (fun _ _ => False) := by decide +kernel
  obtain ⟨ms, t', hms, hplaces, htexts⟩ := hfound.exists_ok
  obtain ⟨s, _, text, -, -, hall⟩ := mutations_materialize SearchSample.installation _
    hlayers rfl "base" "f.c" {} SearchSample.session t' ms hms
  exact ⟨hlayers, ms, t', s, text.toList, hms, hplaces, htexts, hall⟩

end Installation

end Mutagenesis
