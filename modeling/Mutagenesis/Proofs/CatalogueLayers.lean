import Mutagenesis.Catalogue
import Mutagenesis.Proofs.Action
import Mutagenesis.Proofs.Rosters

/-!
# Catalogues built from layers

What a layer that is accepted does to a catalogue: its languages and its operators are put into the
rosters one after another (`extend_eq_ok`). A catalogue that is built from layers is well formed
(`WellFormed`): names are unique, no file ending belongs to two languages, and every operator is
sound for the languages that are there. Replacing a language gives its endings free, but keeps its
name, so operators of earlier layers go on finding it. For the same reason two layers can be merged
into one (`extend_merged`).
-/

set_option autoImplicit false

namespace Mutagenesis

/-- A constraint on a single term names a hole, and one on what stands before lists something. -/
def Constraint.Valid : Constraint → Prop
  | isSingleTerm hole => hole ≠ ""
  | precededBy options => options.names ≠ []

theorem Constraint.validate_eq_ok_iff {k : Constraint} : k.validate = .ok () ↔ k.Valid := by
  cases k with
  | isSingleTerm hole => by_cases h : hole = "" <;> simp [validate, Valid, h]
  | precededBy options =>
    by_cases h : options.names = [] <;> simp [validate, Valid, NameSet.isEmpty, h]

/-- What every operator of a catalogue with these languages has to have. -/
structure Operator.Sound (o : Operator) (ls : Languages) : Prop where
  named : o.name ≠ ""
  languages : o.languages.names ≠ []
  transformations : o.transformations ≠ []
  constraints : ∀ t ∈ o.transformations, ∀ k ∈ t.constraints, k.Valid
  known : ∀ name ∈ o.languages.names, name ∈ ls.map Language.name

/-- Languages with unique names, of which no two share an ending. -/
structure Languages.Distinct (ls : Languages) : Prop where
  names : (ls.map Language.name).Nodup
  endings : ∀ a ∈ ls, ∀ b ∈ ls, ∀ ending ∈ a.endings.names, ending ∈ b.endings.names → a = b

/-- Distinct languages, and sound operators with unique names. -/
structure Catalogue.WellFormed (c : Catalogue) : Prop where
  languages : c.languages.Distinct
  operatorNames : (c.operators.map Operator.name).Nodup
  operators : ∀ o ∈ c.operators, o.Sound c.languages

/-! ## Languages -/

namespace Languages

variable {ls ls' : Languages}

/-- A language is added if all its endings are free, and then it is put into its place. -/
theorem add_eq_ok {l : Language} (h : ls.add l = .ok ls') :
    ls' = Roster.put Language.name l ls ∧
      ∀ ending ∈ l.endings.names, ∀ other ∈ ls, other.name ≠ l.name →
        ending ∉ other.endings.names := by
  unfold add at h
  split at h
  · cases h
  · next hfree =>
    cases h
    refine ⟨rfl, fun ending hending other hother hname hshared => ?_⟩
    rw [List.find?_eq_none] at hfree
    refine hfree ending hending ?_
    rw [List.contains_iff_mem, otherEndings, List.mem_flatMap]
    exact ⟨other, List.mem_filter.mpr ⟨hother, by simpa using hname⟩, hshared⟩

/-- Adding a language keeps endings and names distinct. -/
theorem Distinct.add {l : Language} (hls : ls.Distinct) (h : ls.add l = .ok ls') :
    ls'.Distinct := by
  obtain ⟨rfl, hfree⟩ := add_eq_ok h
  refine ⟨Roster.nodup_keys_put l hls.names, fun a ha b hb ending hea heb => ?_⟩
  -- Two languages of before are distinct already; the new one shares nothing with them.
  rcases (Roster.mem_put_iff hls.names).mp ha with rfl | ⟨holdA, hna⟩
  · rcases (Roster.mem_put_iff hls.names).mp hb with rfl | ⟨holdB, hnb⟩
    · rfl
    · exact absurd heb (hfree ending hea b holdB hnb)
  · rcases (Roster.mem_put_iff hls.names).mp hb with rfl | ⟨holdB, -⟩
    · exact absurd hea (hfree ending heb a holdA hna)
    · exact hls.endings a holdA b holdB ending hea heb

/-- Adding languages one by one puts them all, and keeps them distinct. -/
theorem foldlM_add_eq_ok {new : List Language} (h : new.foldlM add ls = .ok ls') :
    ls' = Roster.putAll Language.name new ls ∧ (ls.Distinct → ls'.Distinct) := by
  induction new generalizing ls with
  | nil =>
    cases h
    exact ⟨rfl, id⟩
  | cons l rest ih =>
    rw [List.foldlM_cons, Except.bind_eq_ok_iff] at h
    obtain ⟨next, hadd, hrest⟩ := h
    obtain ⟨hls', hdistinct⟩ := ih hrest
    refine ⟨?_, fun hls => hdistinct (hls.add hadd)⟩
    rw [hls', (add_eq_ok hadd).1, Roster.putAll_cons]

theorem get_eq_ok_iff {name : String} {l : Language} (hls : ls.Distinct) :
    ls.get name = .ok l ↔ l ∈ ls ∧ l.name = name := by
  rw [← Roster.find?_eq_some_iff hls.names]
  unfold get
  cases Roster.find? Language.name name ls <;> simp

/-- A file has a language exactly if one of the language's endings is its ending. -/
theorem detect_eq_ok_iff {file : String} {l : Language} (hls : ls.Distinct) :
    ls.detect file = .ok l ↔
      l ∈ ls ∧ ∃ ending ∈ l.endings.names, FileName.ending? file = some ending := by
  unfold detect
  constructor
  · intro h
    split at h
    · cases h
    · next ending hending =>
      split at h
      · next found hfound =>
        cases h
        have hmem : ending ∈ l.endings.names := by
          simpa [NameSet.contains] using List.find?_some hfound
        exact ⟨List.mem_of_find?_eq_some hfound, ending, hmem, hending⟩
      · cases h
  · rintro ⟨hl, ending, hmem, hending⟩
    rw [hending]
    dsimp only
    split
    · next found hfound =>
      have hfoundMem : ending ∈ found.endings.names := by
        simpa [NameSet.contains] using List.find?_some hfound
      rw [hls.endings found (List.mem_of_find?_eq_some hfound) l hl ending hfoundMem hmem]
    · next hnone =>
      rw [List.find?_eq_none] at hnone
      exact absurd (by simpa [NameSet.contains] using hmem) (hnone l hl)

/-- The order of the languages does not matter to the language of a file. -/
theorem detect_perm (hls : ls.Distinct) (hperm : ls'.Perm ls) (file : String) :
    ls'.detect file = ls.detect file := by
  have hls' : ls'.Distinct :=
    ⟨(hperm.map Language.name).nodup_iff.mpr hls.names, fun a ha b hb =>
      hls.endings a (hperm.mem_iff.mp ha) b (hperm.mem_iff.mp hb)⟩
  have hsame : ∀ l, ls'.detect file = .ok l ↔ ls.detect file = .ok l := by
    intro l
    rw [detect_eq_ok_iff hls', detect_eq_ok_iff hls, hperm.mem_iff]
  have hfault : ∀ (ls : Languages) fault, ls.detect file = .error fault →
      fault = .languageNotDetected file := by
    intro ls fault h
    unfold detect at h
    split at h
    · cases h
      rfl
    · split at h
      · cases h
      · cases h
        rfl
  cases h : ls.detect file with
  | ok l => exact (hsame l).mpr h
  | error fault =>
    cases h' : ls'.detect file with
    | ok l => rw [(hsame l).mp h'] at h; cases h
    | error fault' => rw [hfault ls fault h, hfault ls' fault' h']

end Languages

/-! ## Operators -/

namespace Operators

variable {ls : Languages} {os os' : Operators}

/-- Nothing but an unknown language keeps an operator out. -/
theorem add_of_known {o : Operator}
    (h : ∀ name ∈ o.languages.names, name ∈ ls.map Language.name) :
    os.add o ls = .ok (Roster.put Operator.name o os) := by
  have hnone : (o.languages.names.find? fun name => !ls.has name) = none := by
    rw [List.find?_eq_none]
    intro name hname
    have hhas : ls.has name = true := by
      simpa [Languages.has, Roster.has] using h name hname
    simp [hhas]
  rw [add, hnone]

/-- An operator is added if all its languages are known, and then it is put into its place. -/
theorem add_eq_ok {o : Operator} (h : os.add o ls = .ok os') :
    os' = Roster.put Operator.name o os ∧
      ∀ name ∈ o.languages.names, name ∈ ls.map Language.name := by
  unfold add at h
  split at h
  · cases h
  · next hknown =>
    cases h
    refine ⟨rfl, fun name hname => ?_⟩
    rw [List.find?_eq_none] at hknown
    have hhas : ls.has name = true := by simpa using hknown name hname
    simpa [Languages.has, Roster.has] using hhas

theorem get_eq_ok_iff {name : String} {o : Operator} (hos : (os.map Operator.name).Nodup) :
    os.get name = .ok o ↔ o ∈ os ∧ o.name = name := by
  rw [← Roster.find?_eq_some_iff hos]
  unfold get
  cases Roster.find? Operator.name name os <;> simp

end Operators

/-- Constraints that all pass their check are valid. -/
theorem Constraint.forM_validate_eq_ok {ks : List Constraint} {u : PUnit}
    (h : ks.forM validate = .ok u) : ∀ k ∈ ks, k.Valid := by
  induction ks with
  | nil => simp
  | cons k rest ih =>
    obtain ⟨_, hk, hrest⟩ := Except.bind_eq_ok_iff.mp h
    intro k' hk'
    rcases List.mem_cons.mp hk' with rfl | hk'
    · exact validate_eq_ok_iff.mp hk
    · exact ih hrest k' hk'

/-- An operator that is checked stays as it is. -/
theorem Operator.validate_eq_ok {o o' : Operator} (h : o.validate = .ok o') :
    o' = o ∧ o.name ≠ "" ∧ o.languages.names ≠ [] ∧ o.transformations ≠ [] ∧
      ∀ t ∈ o.transformations, ∀ k ∈ t.constraints, k.Valid := by
  unfold validate at h
  split at h
  · cases h
  · next hnamed =>
    split at h
    · cases h
    · next hlanguages =>
      split at h
      · cases h
      · next htransformations =>
        obtain ⟨_, hchecked, hdone⟩ := Except.bind_eq_ok_iff.mp h
        cases hdone
        refine ⟨rfl, by simpa using hnamed, ?_, by simpa using htransformations, ?_⟩
        · simpa [NameSet.isEmpty] using hlanguages
        · intro t ht k hk
          exact Constraint.forM_validate_eq_ok hchecked k
            (List.mem_flatMap.mpr ⟨t, ht, hk⟩)

theorem Operator.Sound.mono {o : Operator} {ls ls' : Languages} (h : o.Sound ls)
    (hnames : ∀ name ∈ ls.map Language.name, name ∈ ls'.map Language.name) : o.Sound ls' :=
  { h with known := fun name hname => hnames name (h.known name hname) }

namespace Catalogue

/-- The operators of a layer are put one after another. If those of before are sound for the
languages, all are. -/
theorem addOperators_eq_ok {ls : Languages} {seen : List String} {os os' : Operators}
    {new : List Operator} (h : addOperators ls seen os new = .ok os') :
    os' = Roster.putAll Operator.name new os ∧
      ((os.map Operator.name).Nodup → (os'.map Operator.name).Nodup) ∧
      ((∀ o ∈ os, o.Sound ls) → ∀ o ∈ os', o.Sound ls) := by
  induction new generalizing seen os with
  | nil =>
    cases h
    exact ⟨rfl, id, id⟩
  | cons o rest ih =>
    unfold addOperators at h
    split at h
    · cases h
    · obtain ⟨checked, hchecked, hlater⟩ := Except.bind_eq_ok_iff.mp h
      obtain ⟨rfl, hnamed, hlanguages, htransformations, hconstraints⟩ :=
        Operator.validate_eq_ok hchecked
      obtain ⟨next, hadd, hrest⟩ := Except.bind_eq_ok_iff.mp hlater
      obtain ⟨rfl, hknown⟩ := Operators.add_eq_ok hadd
      obtain ⟨hos', hnames, hsound⟩ := ih hrest
      refine ⟨hos', fun hos => hnames (Roster.nodup_keys_put _ hos), fun hos => hsound ?_⟩
      intro o' ho'
      rcases Roster.mem_put ho' with rfl | ho'
      · exact ⟨hnamed, hlanguages, htransformations, hconstraints, hknown⟩
      · exact hos o' ho'

variable {c c' : Catalogue} {layer : Layer}

/-- A layer that is accepted puts its languages and its operators into the rosters. -/
theorem extend_eq_ok (h : c.extend layer = .ok c') :
    c'.languages = Roster.putAll Language.name layer.languages c.languages ∧
      c'.operators = Roster.putAll Operator.name layer.operators c.operators := by
  obtain ⟨_, -, h⟩ := Except.bind_eq_ok_iff.mp h
  obtain ⟨languages, hlanguages, h⟩ := Except.bind_eq_ok_iff.mp h
  obtain ⟨operators, hoperators, h⟩ := Except.bind_eq_ok_iff.mp h
  cases h
  exact ⟨(Languages.foldlM_add_eq_ok hlanguages).1, (addOperators_eq_ok hoperators).1⟩

/-- A layer keeps a catalogue well formed: no name of a language is lost, so the operators of
before stay sound. -/
theorem WellFormed.extend (hc : c.WellFormed) (h : c.extend layer = .ok c') : c'.WellFormed := by
  obtain ⟨_, -, h⟩ := Except.bind_eq_ok_iff.mp h
  obtain ⟨languages, hlanguages, h⟩ := Except.bind_eq_ok_iff.mp h
  obtain ⟨operators, hoperators, h⟩ := Except.bind_eq_ok_iff.mp h
  cases h
  obtain ⟨hputAll, hdistinct⟩ := Languages.foldlM_add_eq_ok hlanguages
  obtain ⟨-, hnames, hsound⟩ := addOperators_eq_ok hoperators
  have hkept : ∀ name ∈ c.languages.map Language.name, name ∈ languages.map Language.name := by
    intro name hname
    rw [hputAll, Roster.keys_putAll]
    exact List.mem_append_left _ hname
  exact ⟨hdistinct hc.languages, hnames hc.operatorNames,
    hsound fun o ho => (hc.operators o ho).mono hkept⟩

theorem wellFormed_empty : empty.WellFormed where
  languages := ⟨List.nodup_nil, fun _ ha => absurd ha List.not_mem_nil⟩
  operatorNames := List.nodup_nil
  operators _ ho := absurd ho List.not_mem_nil

/-- A catalogue that is built from layers is well formed. -/
theorem wellFormed_of_layers {layers : List Layer} (hc : c.WellFormed)
    (h : layers.foldlM extend c = .ok c') : c'.WellFormed := by
  induction layers generalizing c with
  | nil =>
    cases h
    exact hc
  | cons layer rest ih =>
    rw [List.foldlM_cons, Except.bind_eq_ok_iff] at h
    obtain ⟨next, hlayer, hrest⟩ := h
    exact ih (hc.extend hlayer) hrest

/-- In a catalogue built from nothing by any layers

* languages and operators have unique names, under which exactly they are found;
* no file ending belongs to two languages, so the language of a file is the one that has the ending
  of its name, in whatever order the languages stand;
* every operator has a name, a language, a transformation and valid constraints only, and all its
  languages are in the catalogue.

A further layer leaves all names in their places and appends its new names in the order in which
they first come; under each name stands what the layer said last, or else what stood there. -/
theorem layers_wellFormed (layers : List Layer) (c : Catalogue)
    (h : layers.foldlM extend empty = .ok c) :
    c.WellFormed ∧
      (∀ name l, c.languages.get name = .ok l ↔ l ∈ c.languages ∧ l.name = name) ∧
      (∀ name o, c.operators.get name = .ok o ↔ o ∈ c.operators ∧ o.name = name) ∧
      (∀ file l, c.languages.detect file = .ok l ↔
        l ∈ c.languages ∧ ∃ ending ∈ l.endings.names, FileName.ending? file = some ending) ∧
      (∀ ls : Languages, ls.Perm c.languages → ∀ file, ls.detect file = c.languages.detect file) ∧
      ∀ (layer : Layer) (c' : Catalogue), c.extend layer = .ok c' →
        c'.languages.map Language.name =
            c.languages.map Language.name ++
              ((layer.languages.map Language.name).filter
                (· ∉ c.languages.map Language.name)).eraseDups ∧
          c'.operators.map Operator.name =
            c.operators.map Operator.name ++
              ((layer.operators.map Operator.name).filter
                (· ∉ c.operators.map Operator.name)).eraseDups ∧
          (∀ name, Roster.find? Language.name name c'.languages =
            (Roster.find? Language.name name layer.languages.reverse).or
              (Roster.find? Language.name name c.languages)) ∧
          ∀ name, Roster.find? Operator.name name c'.operators =
            (Roster.find? Operator.name name layer.operators.reverse).or
              (Roster.find? Operator.name name c.operators) := by
  have hc : c.WellFormed := wellFormed_of_layers wellFormed_empty h
  refine ⟨hc, fun name l => Languages.get_eq_ok_iff hc.languages,
    fun name o => Operators.get_eq_ok_iff hc.operatorNames,
    fun file l => Languages.detect_eq_ok_iff hc.languages,
    fun ls hperm file => Languages.detect_perm hc.languages hperm file, fun layer c' hlayer => ?_⟩
  obtain ⟨hlanguages, hoperators⟩ := extend_eq_ok hlayer
  rw [hlanguages, hoperators]
  exact ⟨Roster.keys_putAll _ _, Roster.keys_putAll _ _,
    fun name => Roster.find?_putAll name _ _, fun name => Roster.find?_putAll name _ _⟩

namespace LayersSample

def trim (languages : List String) : Operator :=
  ⟨"trim", .ofList languages, [⟨"(:[x])", ":[x]", [.isSingleTerm "x"]⟩]⟩

def drop : Operator := ⟨"drop", .ofList ["cpp"], [⟨"x", "", []⟩]⟩

def java : Language := ⟨"java", .ofList [".java"]⟩

def cpp : Language := ⟨"cpp", .ofList [".cpp", ".h"]⟩

/-- The second layer takes an ending from a language, gives it to another one, and redefines an
operator. -/
def layers : List Layer :=
  [⟨some (.text "1.0"), [⟨"c", .ofList [".c", ".h"]⟩, java], [trim ["c", "java"]]⟩,
    ⟨some (.number true), [⟨"c", .ofList [".c"]⟩, cpp], [drop, trim ["cpp"]]⟩]

def built : Catalogue := ⟨[⟨"c", .ofList [".c"]⟩, java, cpp], [trim ["cpp"], drop]⟩

/-- A layer that redefines a language and has two new ones, of which it says one twice. -/
def next : Layer where
  version := some (.text "1.0")
  languages := [⟨"d", .ofList [".d"]⟩, ⟨"java", .ofList []⟩, ⟨"ada", .ofList []⟩,
    ⟨"d", .ofList [".di"]⟩]
  operators := []

def extended : Catalogue where
  languages := built.languages.take 1 ++ [⟨"java", .ofList []⟩, cpp, ⟨"d", .ofList [".di"]⟩,
    ⟨"ada", .ofList []⟩]
  operators := built.operators

end LayersSample

/-- The sample layers, and one more on top of them. -/
theorem layers_wellFormed_sample :
    LayersSample.layers.foldlM extend empty = .ok LayersSample.built ∧
      LayersSample.built.WellFormed ∧
      LayersSample.built.languages.detect "src/a.h" = .ok LayersSample.cpp ∧
      Languages.detect LayersSample.built.languages.reverse "src/a.h" = .ok LayersSample.cpp ∧
      LayersSample.built.extend LayersSample.next = .ok LayersSample.extended ∧
      LayersSample.extended.languages.map Language.name = ["c", "java", "cpp", "d", "ada"] ∧
      Roster.find? Language.name "d" LayersSample.extended.languages =
        some ⟨"d", .ofList [".di"]⟩ := by
  have hbuilt : LayersSample.layers.foldlM extend empty = .ok LayersSample.built :=
    Except.eq_ok_of_toOption (by decide +kernel)
  have hnext : LayersSample.built.extend LayersSample.next = .ok LayersSample.extended :=
    Except.eq_ok_of_toOption (by decide +kernel)
  obtain ⟨hwell, -, -, hdetect, horder, hlayer⟩ := layers_wellFormed _ _ hbuilt
  have hheader : LayersSample.built.languages.detect "src/a.h" = .ok LayersSample.cpp := by
    refine (hdetect _ _).mpr ⟨?_, ".h", by decide +kernel, by decide +kernel⟩
    simp [LayersSample.built]
  obtain ⟨hnames, -, hfound, -⟩ := hlayer _ _ hnext
  refine ⟨hbuilt, hwell, hheader, ?_, hnext, ?_, ?_⟩
  · rw [horder _ (List.reverse_perm _), hheader]
  · rw [hnames]
    decide +kernel
  · rw [hfound]
    decide +kernel

/-! ## Layers on top of each other -/

section Merged

variable {ls ls' : Languages} {seen : List String} {os os' : Operators} {new : List Operator}

/-- One more operator: it is not said twice, it is sound in itself, and its languages are known. -/
theorem addOperators_cons (o : Operator) (rest : List Operator) :
    addOperators ls seen os (o :: rest) =
      if o.name ∈ seen then .error (.operatorNameTaken o.name)
      else o.validate >>= fun _ => os.add o ls >>= fun next =>
        addOperators ls (seen ++ [o.name]) next rest := by
  rw [addOperators]
  split
  · rfl
  · cases hchecked : o.validate with
    | error fault => rfl
    | ok checked =>
      obtain ⟨rfl, -⟩ := Operator.validate_eq_ok hchecked
      rfl

/-- Operators are added as those of two lists, one list after the other; the names of the first one
must not come again in the second one. -/
theorem addOperators_append (later : List Operator) :
    addOperators ls seen os (new ++ later) = addOperators ls seen os new >>= fun next =>
      addOperators ls (seen ++ new.map Operator.name) next later := by
  induction new generalizing seen os with
  | nil =>
    rw [List.nil_append, List.map_nil, List.append_nil]
    rfl
  | cons o rest ih =>
    rw [List.cons_append, addOperators_cons, addOperators_cons]
    split
    · rfl
    · cases o.validate with
      | error fault => rfl
      | ok checked =>
        cases hadd : os.add o ls with
        | error fault => rfl
        | ok next =>
          change addOperators ls (seen ++ [o.name]) next (rest ++ later) = _
          rw [ih, List.append_assoc]
          rfl

/-- More languages do not keep operators out. -/
theorem addOperators_mono (h : addOperators ls seen os new = .ok os')
    (hnames : ∀ name ∈ ls.map Language.name, name ∈ ls'.map Language.name) :
    addOperators ls' seen os new = .ok os' := by
  induction new generalizing seen os with
  | nil => exact h
  | cons o rest ih =>
    rw [addOperators_cons] at h ⊢
    split at h
    · cases h
    · next hfresh =>
      obtain ⟨checked, hchecked, hlater⟩ := Except.bind_eq_ok_iff.mp h
      obtain ⟨next, hadd, hrest⟩ := Except.bind_eq_ok_iff.mp hlater
      obtain ⟨hput, hknown⟩ := Operators.add_eq_ok hadd
      have hadd' : os.add o ls' = .ok next := by
        rw [hput]
        exact Operators.add_of_known fun name hname => hnames name (hknown name hname)
      rw [if_neg hfresh, hchecked, Except.ok_bind, hadd', Except.ok_bind]
      exact ih hrest

/-- Names that do not come again need not be remembered. -/
theorem addOperators_seen {before : List String} (h : ∀ o ∈ new, o.name ∉ before) :
    addOperators ls (before ++ seen) os new = addOperators ls seen os new := by
  induction new generalizing seen os with
  | nil => rfl
  | cons o rest ih =>
    obtain ⟨ho, hrest⟩ := List.forall_mem_cons.mp h
    have hseen : o.name ∈ before ++ seen ↔ o.name ∈ seen := by simp [ho]
    simp only [addOperators_cons, hseen, List.append_assoc, ih hrest]

theorem checkVersion_eq_ok {v : LayerVersion} (h : v.supported = true) (languages : List Language)
    (operators : List Operator) : checkVersion ⟨some v, languages, operators⟩ = .ok () := by
  rw [checkVersion]
  dsimp only
  rw [if_pos h]

/-- Two layers, one on top of the other, are as good as one. If a layer is accepted, then what comes
of a second one on top of it, be it a catalogue or a fault, comes also of the single layer that says
all languages of the first and then of the second, and all operators of the first and then of the
second, if the two have no operator's name in common. So operators of the first layer are not kept
out by what the second says of their languages, and file endings that the second one gives free and
takes again are free for it. -/
theorem extend_merged {c c₁ : Catalogue} {a b : Layer} {v w : LayerVersion}
    (hv : v.supported = true) (hw : w.supported = true) (hb : b.version = some w)
    (ha : c.extend a = .ok c₁)
    (hnames : ∀ o ∈ a.operators, ∀ p ∈ b.operators, o.name ≠ p.name) :
    c.extend ⟨some v, a.languages ++ b.languages, a.operators ++ b.operators⟩ = c₁.extend b := by
  obtain ⟨_, -, ha⟩ := Except.bind_eq_ok_iff.mp ha
  obtain ⟨languages, hlanguages, ha⟩ := Except.bind_eq_ok_iff.mp ha
  obtain ⟨operators, hoperators, ha⟩ := Except.bind_eq_ok_iff.mp ha
  cases ha
  obtain ⟨_, languages', operators'⟩ := b
  cases hb
  rw [extend, extend, checkVersion_eq_ok hv, checkVersion_eq_ok hw, Except.ok_bind, Except.ok_bind]
  dsimp only
  rw [List.foldlM_append, hlanguages, Except.ok_bind]
  cases hall : languages'.foldlM Languages.add languages with
  | error fault => rfl
  | ok all =>
    -- The languages of the first layer keep their names, so its operators find them.
    have hkept : ∀ name ∈ languages.map Language.name, name ∈ all.map Language.name := by
      intro name hname
      rw [(Languages.foldlM_add_eq_ok hall).1, Roster.keys_putAll]
      exact List.mem_append_left _ hname
    have hfresh : ∀ p ∈ operators', p.name ∉ a.operators.map Operator.name := by
      intro p hp hmem
      obtain ⟨o, ho, hsame⟩ := List.mem_map.mp hmem
      exact hnames o ho p hp hsame
    have hlater : addOperators all ([] ++ a.operators.map Operator.name) operators operators' =
        addOperators all [] operators operators' := by
      rw [List.nil_append, ← List.append_nil (a.operators.map Operator.name)]
      exact addOperators_seen hfresh
    rw [Except.ok_bind, Except.ok_bind, addOperators_append, addOperators_mono hoperators hkept,
      Except.ok_bind, hlater]

namespace LayersSample

def first : Layer :=
  ⟨some (.text "1.0"), [⟨"c", .ofList [".c", ".h"]⟩, java], [trim ["c", "java"]]⟩

/-- A layer that takes an ending from a language for which `first` has an operator. -/
def second : Layer := ⟨some (.text "1.0"), [⟨"c", .ofList [".c"]⟩, cpp], [drop]⟩

end LayersSample

open LayersSample

/-- Two layers, one after the other and as one. -/
theorem extend_merged_sample :
    empty.extend first = .ok ⟨first.languages, first.operators⟩ ∧
      Catalogue.extend ⟨first.languages, first.operators⟩ second =
        .ok ⟨built.languages, [trim ["c", "java"], drop]⟩ ∧
      empty.extend ⟨some (.number true), first.languages ++ second.languages,
        first.operators ++ second.operators⟩ =
        .ok ⟨built.languages, [trim ["c", "java"], drop]⟩ := by
  have hfirst : empty.extend first = .ok ⟨first.languages, first.operators⟩ :=
    Except.eq_ok_of_toOption (by decide +kernel)
  have hsecond : Catalogue.extend ⟨first.languages, first.operators⟩ second =
      .ok ⟨built.languages, [trim ["c", "java"], drop]⟩ :=
    Except.eq_ok_of_toOption (by decide +kernel)
  have hmerged := extend_merged (v := .number true) (by decide) (by decide +kernel) rfl hfirst
    (b := second) (by decide +kernel)
  exact ⟨hfirst, hsecond, hmerged.trans hsecond⟩

end Merged

end Catalogue

end Mutagenesis
