import Mutagenesis.Catalogue.Form
import Mutagenesis.Mutation
import Mutagenesis.Proofs.Action
import Mutagenesis.Proofs.JsonFields
import Mutagenesis.Proofs.Rosters
import Mutagenesis.Proofs.WrittenLocations
import Mutagenesis.Snapshot

/-!
# JSON forms are decoded to what they stand for

Every value that has a JSON form is decoded from it, also when the fields of its objects were put in
another order (`Rearranges`): records by their shapes (`Shape.readIn_rearranged`), tagged values by
their tags (`Tagged.read_rearranged`), sets and bindings because they are listed in their order, and
locations from their written form (`FileSpan.read_eq_ok_iff`).
-/

set_option autoImplicit false

namespace Mutagenesis

namespace NameSet

/-- A name greater than all others goes to the end. -/
theorem insertName_of_greater (name : String) (names : List String) (h : ∀ x ∈ names, x < name) :
    insertName name names = names ++ [name] := by
  induction names with
  | nil => rfl
  | cons other rest ih =>
    have hother := h other List.mem_cons_self
    rw [insertName, if_neg (String.lt_asymm hother), if_neg (String.ne_of_lt hother).symm,
      ih fun x hx => h x (List.mem_cons_of_mem _ hx)]
    rfl

/-- The set of the names of a set is the set. -/
theorem ofList_names (set : NameSet) : ofList set.names = set := by
  have hnames : ∀ (names : List String) (start : NameSet), (names.foldl insert start).names =
      names.foldl (fun sofar name => insertName name sofar) start.names := by
    intro names
    induction names with
    | nil => exact fun _ => rfl
    | cons name rest ih => exact fun start => ih (start.insert name)
  have hall : (ofList set.names).names = set.names :=
    (hnames set.names empty).trans
      (Json.foldl_put_of_increasing insertName_of_greater set.increasing)
  generalize ofList set.names = other at hall
  cases other
  cases set
  cases hall
  rfl

end NameSet

namespace Bindings

/-- An entry with a name greater than all others goes to the end. -/
theorem insertEntry_of_greater (entry : String × String) (entries : List (String × String))
    (h : ∀ x ∈ entries, x.1 < entry.1) :
    insertEntry entry.1 entry.2 entries = entries ++ [entry] := by
  induction entries with
  | nil => rfl
  | cons other rest ih =>
    have hother := h other List.mem_cons_self
    rw [insertEntry, if_neg (String.lt_asymm hother), if_neg (String.ne_of_lt hother).symm,
      ih fun x hx => h x (List.mem_cons_of_mem _ hx)]
    rfl

/-- The bindings of the entries of bindings are these bindings. -/
theorem ofList_entries (b : Bindings) : ofList b.entries = b := by
  have hentries : ∀ (entries : List (String × String)) (start : Bindings),
      (entries.foldl (fun b entry => b.insert entry.1 entry.2) start).entries =
        entries.foldl (fun sofar entry => insertEntry entry.1 entry.2 sofar) start.entries := by
    intro entries
    induction entries with
    | nil => exact fun _ => rfl
    | cons entry rest ih => exact fun start => ih (start.insert entry.1 entry.2)
  have hall : (ofList b.entries).entries = b.entries :=
    (hentries b.entries empty).trans
      (Json.foldl_put_of_increasing insertEntry_of_greater b.increasing)
  generalize ofList b.entries = other at hall
  cases other
  cases b
  cases hall
  rfl

end Bindings

variable {j : Json} {name : String}

namespace Json

/-! ## Rearranged values -/

/-- Where no name repeats, looking up a name finds exactly its field. -/
theorem lookup_eq_some_iff {fields : List (String × Json)} (h : (fields.map Prod.fst).Nodup) :
    fields.lookup name = some j ↔ (name, j) ∈ fields := by
  rw [Roster.lookup_eq_find?, Option.map_eq_some_iff]
  constructor
  · rintro ⟨f, hfind, rfl⟩
    obtain ⟨hf, rfl⟩ := (Roster.find?_eq_some_iff h).mp hfind
    exact hf
  · intro hf
    exact ⟨(name, j), (Roster.find?_eq_some_iff h).mpr ⟨hf, rfl⟩, rfl⟩

/-- Where no name repeats, the order of the fields does not matter for a look-up. -/
theorem lookup_reverse {fields : List (String × Json)} (h : (fields.map Prod.fst).Nodup)
    (name : String) : fields.reverse.lookup name = fields.lookup name := by
  have hreverse : (fields.reverse.map Prod.fst).Nodup :=
    ((List.reverse_perm fields).map Prod.fst).nodup_iff.mpr h
  ext j
  rw [lookup_eq_some_iff h, lookup_eq_some_iff hreverse, List.mem_reverse]

/-- A field of a rearranged object comes from one of the object. -/
theorem mem_of_lookup_map {f : Json → Json} {fields fields' : List (String × Json)}
    (hnodup : (fields.map Prod.fst).Nodup) (hnodup' : (fields'.map Prod.fst).Nodup)
    (hlookup : ∀ name, fields'.lookup name = (fields.lookup name).map f) {p : String × Json}
    (hp : p ∈ fields') : ∃ j, (p.1, j) ∈ fields ∧ p.2 = f j := by
  have hp' := (lookup_eq_some_iff hnodup').mpr hp
  rw [hlookup, Option.map_eq_some_iff] at hp'
  obtain ⟨j, hj, hfj⟩ := hp'
  exact ⟨j, (lookup_eq_some_iff hnodup).mp hj, hfj.symm⟩

/-- The fields of objects are put in another order, all the way down. -/
structure Rearranges (f : Json → Json) : Prop where
  string : ∀ s, f (.string s) = .string s
  number : ∀ n, f (.number n) = .number n
  array : ∀ items, f (.array items) = .array (items.map f)
  object : ∀ fields : List (String × Json), (fields.map Prod.fst).Nodup →
    ∃ fields', f (.object fields) = .object fields' ∧ (fields'.map Prod.fst).Nodup ∧
      ∀ name, fields'.lookup name = (fields.lookup name).map f
  bindings : ∀ b : Bindings, f b.toJson = b.toJson

/-- Leaving a value as it is rearranges it. -/
theorem rearranges_id : Rearranges id where
  string _ := rfl
  number _ := rfl
  array items := by simp
  object fields h := ⟨fields, rfl, h, fun name => by simp⟩
  bindings _ := rfl

/-- Sorting the items of an array sorts each of them. -/
theorem sortedItems_eq_map (items : List Json) : sortedItems items = items.map sorted := by
  induction items with
  | nil => rfl
  | cons item rest ih => rw [sortedItems, ih, List.map_cons]

/-- Sorting the fields of objects rearranges a value. -/
theorem rearranges_sorted : Rearranges sorted where
  string _ := rfl
  number _ := rfl
  array items := by rw [sorted, sortedItems_eq_map]
  object fields h := by
    have hincreasing : Increasing (gather [] (sortedFields fields)) :=
      Increasing.gather List.Pairwise.nil
    refine ⟨_, sorted_object fields, ?_, fun name => ?_⟩
    · exact List.pairwise_map.mpr (hincreasing.imp fun hlt => String.ne_of_lt hlt)
    · have hfield := field?_sorted name (.object fields)
      rwa [sorted_object, field?, last?, lookup_reverse h] at hfield
  bindings b := by
    refine sorted_object_of_fixed (fun f hf => ?_) ?_
    · obtain ⟨entry, -, rfl⟩ := List.mem_map.mp hf
      rfl
    · exact List.pairwise_map.mpr b.increasing

/-! ## Records -/

variable {f : Json → Json} {α : Type}

/-- A required field that can be decoded passes its check. -/
theorem Field.check_required {decode : Decoder α} {a : α} (h : decode j = .ok a) :
    (Field.required name decode).check j = .ok () := by
  simp only [Field.required, h]
  rfl

/-- An optional field that can be decoded passes its check. -/
theorem Field.check_optionalWith {decode : Decoder α} {a : α} (h : decode j = .ok a) :
    (Field.optionalWith name decode).check j = .ok () := by
  simp only [Field.optionalWith, h]
  rfl

namespace Shape

/-- Fields with different names that all pass their checks are taken as they are. -/
theorem checkFields_eq {shape : Shape} {seen fields : Record}
    (hnodup : ((seen ++ fields).map Prod.fst).Nodup)
    (hcheck : ∀ p ∈ fields, ∃ field, shape.fields.find? (·.name = p.1) = some field ∧
      field.check p.2 = .ok ()) :
    shape.checkFields seen fields = .ok (seen ++ fields) := by
  induction fields generalizing seen with
  | nil => rw [checkFields, List.append_nil]
  | cons p rest ih =>
    obtain ⟨name, j⟩ := p
    obtain ⟨field, hfind, hfield⟩ := hcheck (name, j) List.mem_cons_self
    have hnew : seen.lookup name = none := by
      rw [List.lookup_eq_none_iff]
      intro q hq
      rw [List.map_append, List.nodup_append] at hnodup
      have hne := hnodup.2.2 q.1 (List.mem_map_of_mem hq) name (by simp)
      simpa using Ne.symm hne
    rw [checkFields, hfind]
    dsimp only
    rw [hnew, if_neg (by simp), hfield]
    change checkFields shape (seen ++ [(name, j)]) rest = _
    rw [ih (by simpa using hnodup) fun q hq => hcheck q (List.mem_cons_of_mem _ hq),
      List.append_assoc, List.singleton_append]

/-- All fields are present if each one that is not optional is found. -/
theorem checkPresent_eq {seen : Record} {fields : List Field}
    (h : ∀ field ∈ fields, field.optional = false → (seen.lookup field.name).isSome = true) :
    checkPresent seen fields = .ok () := by
  induction fields with
  | nil => rfl
  | cons field rest ih =>
    rw [checkPresent, if_neg, ih fun g hg => h g (List.mem_cons_of_mem _ hg)]
    rw [Bool.and_eq_true, not_and, Bool.not_eq_true', Option.isNone_iff_eq_none]
    intro hrequired hnone
    simpa [hnone] using h field List.mem_cons_self hrequired

/-- The fields of a record are read, in whatever order they stand. -/
theorem readIn_rearranged (hf : Rearranges f) (shape : Shape) (inTagged : Bool)
    (fields : List (String × Json)) (hnodup : (fields.map Prod.fst).Nodup)
    (hcheck : ∀ p ∈ fields, ∃ field, shape.fields.find? (·.name = p.1) = some field ∧
      field.check (f p.2) = .ok ())
    (hpresent : ∀ field ∈ shape.fields, field.optional = false →
      (fields.lookup field.name).isSome = true) :
    ∃ record, shape.readIn inTagged (f (.object fields)) = .ok record ∧
      ∀ name, record.lookup name = (fields.lookup name).map f := by
  obtain ⟨fields', hobject, hnodup', hlookup⟩ := hf.object fields hnodup
  have hfields : shape.checkFields [] fields' = .ok fields' := by
    refine checkFields_eq hnodup' fun p hp => ?_
    obtain ⟨j, hj, hfj⟩ := mem_of_lookup_map hnodup hnodup' hlookup hp
    rw [hfj]
    exact hcheck (p.1, j) hj
  have hthere : checkPresent fields' shape.fields = .ok () :=
    checkPresent_eq fun field hfield hrequired => by
      rw [hlookup, Option.isSome_map]
      exact hpresent field hfield hrequired
  refine ⟨fields', ?_, hlookup⟩
  rw [hobject, readIn, hfields]
  dsimp only [bind, Except.bind]
  rw [hthere]
  rfl

end Shape

/-! ## Tagged values -/

/-- The field with a name is the only one of that name. -/
theorem filter_name_eq {fields : List (String × Json)} (h : (fields.map Prod.fst).Nodup)
    (hj : (name, j) ∈ fields) : fields.filter (·.1 = name) = [(name, j)] := by
  induction fields with
  | nil => cases hj
  | cons p rest ih =>
    rw [List.map_cons, List.nodup_cons] at h
    rcases List.mem_cons.mp hj with rfl | hj
    · have hrest : rest.filter (·.1 = name) = [] := by
        rw [List.filter_eq_nil_iff]
        intro q hq hname
        have hmem : q.1 ∈ rest.map Prod.fst := List.mem_map_of_mem hq
        exact h.1 (of_decide_eq_true hname ▸ hmem)
      rw [List.filter_cons_of_pos (by simp), hrest]
    · have hne : p.1 ≠ name := fun hname => h.1 (hname ▸ List.mem_map_of_mem hj)
      rw [List.filter_cons_of_neg (by simpa using hne), ih h.2 hj]

/-- Without the fields of a name, looking up another name finds what it found. -/
theorem lookup_filter_ne (fields : List (String × Json)) (name other : String) :
    (fields.filter (·.1 ≠ other)).lookup name =
      if name = other then none else fields.lookup name := by
  induction fields with
  | nil => simp
  | cons p rest ih =>
    obtain ⟨name', j⟩ := p
    by_cases hother : name' = other
    · rw [List.filter_cons_of_neg (by simpa using hother), ih, lookup_cons_eq, hother]
      by_cases hname : name = other <;> simp [hname]
    · rw [List.filter_cons_of_pos (by simpa using hother), lookup_cons_eq, ih, lookup_cons_eq]
      by_cases hname : name = name'
      · simp [hname, hother]
      · simp [hname]

/-- A tagged value is read by its tag, in whatever order its fields stand. -/
theorem Tagged.read_rearranged (hf : Rearranges f) (t : Tagged) (tagField tag : String)
    (fields : List (String × Json)) {v : Variant} (ht : t.tagField = tagField)
    (hnodup : (((tagField, .string tag) :: fields).map Prod.fst).Nodup)
    (hv : t.variants.find? (·.tag = tag) = some v)
    (hcheck : ∀ p ∈ fields, ∃ field, v.fields.find? (·.name = p.1) = some field ∧
      field.check (f p.2) = .ok ())
    (hpresent : ∀ field ∈ v.fields, field.optional = false →
      (fields.lookup field.name).isSome = true) :
    ∃ record, t.read (f (.object ((tagField, .string tag) :: fields))) = .ok (tag, record) ∧
      ∀ name, record.lookup name = (fields.lookup name).map f := by
  subst ht
  obtain ⟨fields', hobject, hnodup', hlookup⟩ := hf.object _ hnodup
  have hvtag : v.tag = tag := by simpa using List.find?_some hv
  have hfields := List.nodup_cons.mp hnodup
  have htag : (t.tagField, Json.string tag) ∈ fields' := by
    rw [← lookup_eq_some_iff hnodup', hlookup, List.lookup_cons_self, Option.map_some, hf.string]
  have hrest : ∀ name, (fields'.filter (·.1 ≠ t.tagField)).lookup name =
      (fields.lookup name).map f := by
    intro name
    rw [lookup_filter_ne]
    by_cases hname : name = t.tagField
    · have hnone : fields.lookup t.tagField = none := by
        rw [Roster.lookup_eq_find?, Option.map_eq_none_iff, Roster.find?_eq_none_iff]
        exact hfields.1
      rw [if_pos hname, hname, hnone, Option.map_none]
    · rw [if_neg hname, hlookup, List.lookup_cons, beq_eq_false_iff_ne.mpr hname]
  have hnodupRest : ((fields'.filter (·.1 ≠ t.tagField)).map Prod.fst).Nodup :=
    hnodup'.sublist (List.filter_sublist.map _)
  have hchecked : Shape.checkFields ⟨v.name, v.fields⟩ [] (fields'.filter (·.1 ≠ t.tagField)) =
      .ok (fields'.filter (·.1 ≠ t.tagField)) := by
    refine Shape.checkFields_eq hnodupRest fun p hp => ?_
    obtain ⟨j, hj, hfj⟩ := mem_of_lookup_map hfields.2 hnodupRest hrest hp
    rw [hfj]
    exact hcheck (p.1, j) hj
  have hthere : Shape.checkPresent (fields'.filter (·.1 ≠ t.tagField)) v.fields = .ok () :=
    Shape.checkPresent_eq fun field hfield hrequired => by
      rw [hrest, Option.isSome_map]
      exact hpresent field hfield hrequired
  refine ⟨_, ?_, hrest⟩
  rw [hobject, read, filter_name_eq hnodup' htag]
  simp only [variant, hv, Except.ok_bind, hchecked, hthere, hvtag]
  rfl

namespace Record

variable {record : Record} {name : String} {decode : Decoder α} {j : Json} {a : α}

/-- A field that is there is decoded. -/
theorem get_eq (h : record.lookup name = some j) (hdecode : decode j = .ok a) :
    record.get name decode = .ok a := by
  rw [get, h]
  exact hdecode

/-- A field that is there is decoded, and the default is not used. -/
theorem getD_eq (h : record.lookup name = some j) (hdecode : decode j = .ok a) {default : α} :
    record.getD name decode default = .ok a := by
  rw [getD, h]
  exact hdecode

end Record

variable (hf : Rearranges f)
include hf

/-- A string is read back in every form. -/
theorem decodeString_form (s : String) : decodeString (f (.string s)) = .ok s := by
  rw [hf.string]
  rfl

/-- A number is read back in every form. -/
theorem decodeNat_form (n : Nat) : decodeNat (f (.nat n)) = .ok n := by
  rw [nat, hf.number, decodeNat, if_neg (by omega)]
  rfl

/-- A list is read back in every form if its items are. -/
theorem decodeList_form {decode : Decoder α} {toJson : α → Json} {xs : List α}
    (h : ∀ x ∈ xs, decode (f (toJson x)) = .ok x) :
    decodeList decode (f (.array (xs.map toJson))) = .ok xs := by
  rw [hf.array, List.map_map, decodeList]
  induction xs with
  | nil => rfl
  | cons x rest ih =>
    rw [List.map_cons, List.mapM_cons, ih fun y hy => h y (List.mem_cons_of_mem _ hy)]
    change (decode (f (toJson x)) >>= _) = _
    rw [h x List.mem_cons_self]
    rfl

end Json

open Json (Rearranges Shape Field)

section

variable {f : Json → Json} (hf : Rearranges f)
include hf

/-- A set of names is read back in every form. -/
theorem NameSet.decode_form (set : NameSet) :
    NameSet.decode (f (.strings set.names)) = .ok set := by
  have hlist : Json.decodeList Json.decodeString (f (.strings set.names)) = .ok set.names :=
    Json.decodeList_form hf fun s _ => Json.decodeString_form hf s
  rw [NameSet.decode, hlist]
  exact congrArg Except.ok set.ofList_names

/-- Bindings are read back in every form. -/
theorem Bindings.decode_form (b : Bindings) : Bindings.decode (f b.toJson) = .ok b := by
  have hentries : ∀ entries : List (String × String),
      (entries.map fun p => (p.1, Json.string p.2)).mapM (fun p : String × Json =>
        return (p.1, ← Json.decodeString p.2)) = (.ok entries : Except Json.DecodeFault _) := by
    intro entries
    induction entries with
    | nil => rfl
    | cons p rest ih =>
      rw [List.map_cons, List.mapM_cons, ih]
      rfl
  rw [hf.bindings, Bindings.decode, Bindings.toJson, Json.decodeEntries, hentries b.entries]
  exact congrArg Except.ok b.ofList_entries

/-- A place in a file is read back in every form, if its numbers can be. -/
theorem FileSpan.decode_form {s : FileSpan} (h : s.Readable) :
    FileSpan.decode (f (.string s.text)) = .ok s := by
  rw [hf.string, FileSpan.decode, decodeWritten]
  simp only [Json.decodeString, Except.ok_bind, FileSpan.text, String.toList_ofList,
    FileSpan.read_eq_ok_iff.mpr (FileSpan.spells_write h)]
  rfl

/-- An id is read back in every form. -/
theorem MutantId.decode_form (id : MutantId) : MutantId.decode (f (.string id.text)) = .ok id := by
  have hdigit : ∀ d : Fin 16, digit? (digitChar d) = some d := by decide
  have hdigits : ∀ ds : List (Fin 16), (ds.map digitChar).mapM digit? = some ds := by
    intro ds
    induction ds with
    | nil => rfl
    | cons d rest ih => rw [List.map_cons, List.mapM_cons, ih, hdigit]; rfl
  have hplain : readPlain? id.write = some id := by
    rw [readPlain?, write, hdigits]
    exact dif_pos id.length_digits
  rw [hf.string, MutantId.decode, MutantId.text, String.toList_ofList, hplain]

/-- A mutation is read back in every form, also where a tag stands among its fields. -/
theorem Mutation.decodeIn_form {m : Mutation} (h : m.location.Readable)
    (inTagged : Bool) : Mutation.decodeIn inTagged (f m.toJson) = .ok m := by
  have hoperator := Json.decodeString_form hf m.operator
  have hindex := Json.decodeNat_form hf m.index
  have hlocation := FileSpan.decode_form hf h
  have harguments := Bindings.decode_form hf m.arguments
  obtain ⟨record, hread, hlookup⟩ := Shape.readIn_rearranged hf Mutation.shape inTagged
    [("operator", .string m.operator), ("transformation-index", .nat m.index),
      ("location", .string m.location.text), ("arguments", m.arguments.toJson)] (by simp) (by
      simp only [List.forall_mem_cons]
      exact ⟨⟨_, rfl, Field.check_required hoperator⟩, ⟨_, rfl, Field.check_required hindex⟩,
        ⟨_, rfl, Field.check_required hlocation⟩, ⟨_, rfl, Field.check_optionalWith harguments⟩,
        by simp⟩) (by simp [Mutation.shape, Field.required, Field.optionalWith])
  rw [Mutation.decodeIn, Mutation.toJson, hread, Except.ok_bind,
    Json.Record.get_eq (hlookup "operator") hoperator,
    Json.Record.get_eq (hlookup "transformation-index") hindex,
    Json.Record.get_eq (hlookup "location") hlocation,
    Json.Record.getD_eq (hlookup "arguments") harguments]
  rfl

/-- A replacement is read back in every form. -/
theorem Replacement.decode_form {r : Replacement} (h : r.location.Readable) :
    Replacement.decode (f r.toJson) = .ok r := by
  have hlocation := FileSpan.decode_form hf h
  have htext := Json.decodeString_form hf r.text
  obtain ⟨record, hread, hlookup⟩ := Shape.readIn_rearranged hf Replacement.shape false
    [("location", .string r.location.text), ("text", .string r.text)] (by simp) (by
      simp only [List.forall_mem_cons]
      exact ⟨⟨_, rfl, Field.check_required hlocation⟩, ⟨_, rfl, Field.check_required htext⟩,
        by simp⟩) (by simp [Replacement.shape, Field.required])
  rw [Replacement.decode, Replacement.toJson, Shape.read, hread, Except.ok_bind,
    Json.Record.get_eq (hlookup "location") hlocation, Json.Record.get_eq (hlookup "text") htext]
  rfl

/-- A mutant is read back in every form. -/
theorem Mutant.decode_form {m : Mutant}
    (h : ∀ mutation ∈ m.mutations, mutation.location.Readable) :
    Mutant.decode (f m.toJson) = .ok m := by
  have hid := MutantId.decode_form hf m.id
  have hbase := Json.decodeString_form hf m.base
  have hmutations : Json.decodeList Mutation.decode
      (f (.array (m.mutations.map Mutation.toJson))) = .ok m.mutations :=
    Json.decodeList_form hf fun mutation hmem => Mutation.decodeIn_form hf (h mutation hmem) false
  obtain ⟨record, hread, hlookup⟩ := Shape.readIn_rearranged hf Mutant.shape false
    [("uuid", .string m.id.text), ("base", .string m.base),
      ("mutations", .array (m.mutations.map Mutation.toJson))] (by simp) (by
      simp only [List.forall_mem_cons]
      exact ⟨⟨_, rfl, Field.check_required hid⟩, ⟨_, rfl, Field.check_required hbase⟩,
        ⟨_, rfl, Field.check_required hmutations⟩, by simp⟩)
      (by simp [Mutant.shape, Field.required])
  rw [Mutant.decode, Mutant.toJson, Shape.read, hread, Except.ok_bind,
    Json.Record.get_eq (hlookup "uuid") hid, Json.Record.get_eq (hlookup "base") hbase,
    Json.Record.get_eq (hlookup "mutations") hmutations]
  rfl

/-- A constraint of either kind is read back in every form. -/
theorem Constraint.decode_form (c : Constraint) : Constraint.decode (f c.toJson) = .ok c := by
  cases c with
  | isSingleTerm hole =>
    have hhole := Json.decodeString_form hf hole
    obtain ⟨record, hread, hlookup⟩ := Json.Tagged.read_rearranged hf alternatives "type"
      "is-single-term" [("hole", .string hole)] rfl (by simp) rfl
      (List.forall_mem_singleton.mpr ⟨_, rfl, Field.check_required hhole⟩)
      (by simp [Field.required])
    rw [Constraint.decode, toJson, hread, Except.ok_bind]
    dsimp only
    rw [if_pos rfl, Json.Record.get_eq (hlookup "hole") hhole]
    rfl
  | precededBy options =>
    have hoptions := NameSet.decode_form hf options
    obtain ⟨record, hread, hlookup⟩ := Json.Tagged.read_rearranged hf alternatives "type"
      "preceded-by" [("any-of", .strings options.names)] rfl (by simp) rfl
      (List.forall_mem_singleton.mpr ⟨_, rfl, Field.check_required hoptions⟩)
      (by simp [Field.required])
    rw [Constraint.decode, toJson, hread, Except.ok_bind]
    dsimp only
    rw [if_neg (by decide), Json.Record.get_eq (hlookup "any-of") hoptions]
    rfl

/-- A transformation is read back in every form. -/
theorem Transformation.decode_form (t : Transformation) :
    Transformation.decode (f t.toJson) = .ok t := by
  have hmatch := Json.decodeString_form hf t.matchTemplate
  have hrewrite := Json.decodeString_form hf t.resultTemplate
  have hconstraints : Json.decodeList Constraint.decode
      (f (.array (t.constraints.map Constraint.toJson))) = .ok t.constraints :=
    Json.decodeList_form hf fun c _ => Constraint.decode_form hf c
  obtain ⟨record, hread, hlookup⟩ := Shape.readIn_rearranged hf Transformation.shape false
    [("match", .string t.matchTemplate), ("rewrite", .string t.resultTemplate),
      ("constraints", .array (t.constraints.map Constraint.toJson))] (by simp) (by
      simp only [List.forall_mem_cons]
      exact ⟨⟨_, rfl, Field.check_required hmatch⟩, ⟨_, rfl, Field.check_required hrewrite⟩,
        ⟨_, rfl, Field.check_optionalWith hconstraints⟩, by simp⟩)
      (by simp [Transformation.shape, Field.required, Field.optionalWith])
  rw [Transformation.decode, Transformation.toJson, Shape.read, hread, Except.ok_bind,
    Json.Record.get_eq (hlookup "match") hmatch, Json.Record.get_eq (hlookup "rewrite") hrewrite,
    Json.Record.getD_eq (hlookup "constraints") hconstraints]
  rfl

/-- An operator is decoded, and then checked once more. -/
theorem Operator.decode_form {o : Operator} (h : o.validate = .ok o) :
    Operator.decode (f o.toJson) = .ok o := by
  have hname := Json.decodeString_form hf o.name
  have hlanguages := NameSet.decode_form hf o.languages
  have htransformations : Json.decodeList Transformation.decode
      (f (.array (o.transformations.map Transformation.toJson))) = .ok o.transformations :=
    Json.decodeList_form hf fun t _ => Transformation.decode_form hf t
  obtain ⟨record, hread, hlookup⟩ := Shape.readIn_rearranged hf Operator.shape false
    [("name", .string o.name), ("languages", .strings o.languages.names),
      ("transformations", .array (o.transformations.map Transformation.toJson))] (by simp) (by
      simp only [List.forall_mem_cons]
      exact ⟨⟨_, rfl, Field.check_required hname⟩, ⟨_, rfl, Field.check_required hlanguages⟩,
        ⟨_, rfl, Field.check_required htransformations⟩, by simp⟩)
      (by simp [Operator.shape, Field.required])
  rw [Operator.decode, Operator.toJson, Shape.read, hread, Except.ok_bind,
    Json.Record.get_eq (hlookup "name") hname,
    Json.Record.get_eq (hlookup "languages") hlanguages,
    Json.Record.get_eq (hlookup "transformations") htransformations]
  simp only [Except.ok_bind, h]
  rfl

/-- A language is read back in every form. -/
theorem Language.decode_form (l : Language) : Language.decode (f l.toJson) = .ok l := by
  have hname := Json.decodeString_form hf l.name
  have hendings := NameSet.decode_form hf l.endings
  obtain ⟨record, hread, hlookup⟩ := Shape.readIn_rearranged hf Language.shape false
    [("name", .string l.name), ("file-endings", .strings l.endings.names)] (by simp) (by
      simp only [List.forall_mem_cons]
      exact ⟨⟨_, rfl, Field.check_required hname⟩, ⟨_, rfl, Field.check_required hendings⟩,
        by simp⟩) (by simp [Language.shape, Field.required])
  rw [Language.decode, Language.toJson, Shape.read, hread, Except.ok_bind,
    Json.Record.get_eq (hlookup "name") hname,
    Json.Record.get_eq (hlookup "file-endings") hendings]
  rfl

end

/-! ## Records with fields that are left out -/

namespace Json

/-- The fields of a record that have a value. -/
def present (fields : List (String × Option Json)) : List (String × Json) :=
  fields.filterMap fun p => p.2.map (p.1, ·)

theorem present_cons (name : String) (value : Option Json) (rest : List (String × Option Json)) :
    present ((name, value) :: rest) = (value.map (name, ·)).toList ++ present rest := by
  cases value <;> rfl

variable {fields : List (String × Option Json)}

/-- The fields that are written are those with a value. -/
theorem mem_present : (name, j) ∈ present fields ↔ (name, some j) ∈ fields := by
  constructor
  · intro h
    obtain ⟨⟨name', value⟩, hmem, hvalue⟩ := List.mem_filterMap.mp h
    obtain ⟨j', rfl, heq⟩ := Option.map_eq_some_iff.mp hvalue
    cases heq
    exact hmem
  · intro h
    exact List.mem_filterMap.mpr ⟨_, h, rfl⟩

/-- No name repeats among the fields that are written. -/
theorem nodup_names_present (h : (fields.map Prod.fst).Nodup) :
    ((present fields).map Prod.fst).Nodup := by
  refine h.sublist ?_
  induction fields with
  | nil => exact List.Sublist.slnil
  | cons p rest ih =>
    obtain ⟨name, j | j⟩ := p
    · exact (ih (List.nodup_cons.mp h).2).cons name
    · exact (ih (List.nodup_cons.mp h).2).cons_cons name

/-- Looking up a name among the fields that are written gives its value, if it has one. -/
theorem lookup_present (h : (fields.map Prod.fst).Nodup) (name : String) :
    (present fields).lookup name = (fields.lookup name).join := by
  ext j
  rw [lookup_eq_some_iff (nodup_names_present h), mem_present, Option.join_eq_some_iff,
    Roster.lookup_eq_find?, Option.map_eq_some_iff]
  constructor
  · intro hmem
    exact ⟨(name, some j), (Roster.find?_eq_some_iff h).mpr ⟨hmem, rfl⟩, rfl⟩
  · rintro ⟨⟨_, _⟩, hfind, rfl⟩
    obtain ⟨hmem, rfl⟩ := (Roster.find?_eq_some_iff h).mp hfind
    exact hmem

end Json

namespace Snapshot

open Json (present)

theorem optionalField_eq (name : String) (value : Option String) :
    optionalField name value = ((value.map Json.string).map (name, ·)).toList := by
  cases value <;> rfl

/-- A list, if it is not empty. -/
def unlessEmpty (values : List String) : Option Json :=
  if values.isEmpty then none else some (.strings values)

theorem listField_eq (name : String) (values : List String) :
    listField name values = ((unlessEmpty values).map (name, ·)).toList := by
  cases values <;> rfl

/-- The fields of a snapshot with their values, if they have one. -/
def fields (s : Snapshot) : List (String × Option Json) :=
  [("name", some (.string s.name)), ("image", some (.string s.image)),
    ("program", s.program.map .string), ("source-dir", some (.string s.sourceDir)),
    ("languages", unlessEmpty s.languages), ("build-command", s.buildCommand.map .string),
    ("harness", s.harness.map .string), ("compiler", s.compiler.map .string),
    ("files-to-instrument", unlessEmpty s.filesToInstrument)]

/-- A snapshot is written as the fields that have a value. -/
theorem toJson_eq (s : Snapshot) : s.toJson = .object (present s.fields) := by
  simp only [toJson, optionalField_eq, listField_eq, fields, Json.present_cons, List.append_assoc]
  simp [present]

variable {f : Json → Json} (hf : Rearranges f)
include hf

/-- An optional string that is there is read back in every form. -/
theorem optionalString_form (s : String) : optionalString (f (.string s)) = .ok (some s) := by
  rw [hf.string]
  rfl

/-- A list of strings is read back in every form. -/
theorem stringList_form (values : List String) : stringList (f (.strings values)) = .ok values :=
  Json.decodeList_form hf fun s _ => Json.decodeString_form hf s

variable {record : Json.Record} {name : String}

/-- A string that was left out is decoded as none. -/
theorem getD_optional {value : Option String}
    (h : record.lookup name = (value.map .string).map f) :
    record.getD name optionalString none = .ok value := by
  cases value with
  | none => rw [Json.Record.getD, h]; rfl
  | some s => exact Json.Record.getD_eq h (optionalString_form hf s)

/-- A list that was left out is decoded as an empty one. -/
theorem getD_list {values : List String}
    (h : record.lookup name = (unlessEmpty values).map f) :
    record.getD name stringList [] = .ok values := by
  cases values with
  | nil => rw [Json.Record.getD, h]; rfl
  | cons value rest => exact Json.Record.getD_eq h (stringList_form hf (value :: rest))

/-- An optional string that is written passes the check of its field. -/
theorem check_optional {value : Option String}
    (h : value.map Json.string = some j) :
    (Field.optionalWith name optionalString).check (f j) = .ok () := by
  obtain ⟨s, -, rfl⟩ := Option.map_eq_some_iff.mp h
  exact Field.check_optionalWith (optionalString_form hf s)

/-- A list of strings that is written passes the check of its field. -/
theorem check_list {values : List String} (h : unlessEmpty values = some j) :
    (Field.optionalWith name stringList).check (f j) = .ok () := by
  unfold unlessEmpty at h
  split at h
  · cases h
  · cases h
    exact Field.check_optionalWith (stringList_form hf values)

/-- A snapshot is read back in every form: absent fields come back as absent or empty. -/
theorem decode_form (s : Snapshot) : Snapshot.decode (f s.toJson) = .ok s := by
  have hname := Json.decodeString_form hf s.name
  have himage := Json.decodeString_form hf s.image
  have hdir := Json.decodeString_form hf s.sourceDir
  have hnodup : (s.fields.map Prod.fst).Nodup := by simp [fields]
  have hcheck : ∀ p ∈ s.fields, ∀ j, p.2 = some j →
      ∃ field, shape.fields.find? (·.name = p.1) = some field ∧ field.check (f j) = .ok () := by
    simp only [fields, List.forall_mem_cons]
    refine ⟨?_, ?_, ?_, ?_, ?_, ?_, ?_, ?_, ?_, by simp⟩ <;> intro j hj
    · cases hj; exact ⟨_, rfl, Field.check_required hname⟩
    · cases hj; exact ⟨_, rfl, Field.check_required himage⟩
    · exact ⟨_, rfl, check_optional hf hj⟩
    · cases hj; exact ⟨_, rfl, Field.check_optionalWith hdir⟩
    · exact ⟨_, rfl, check_list hf hj⟩
    · exact ⟨_, rfl, check_optional hf hj⟩
    · exact ⟨_, rfl, check_optional hf hj⟩
    · exact ⟨_, rfl, check_optional hf hj⟩
    · exact ⟨_, rfl, check_list hf hj⟩
  obtain ⟨record, hread, hlookup⟩ := Shape.readIn_rearranged hf shape false (present s.fields)
    (Json.nodup_names_present hnodup)
    (fun p hp => hcheck (p.1, some p.2) (Json.mem_present.mp hp) p.2 rfl)
    (by
      have hthere : (s.fields.lookup "name").join.isSome = true ∧
          (s.fields.lookup "image").join.isSome = true := ⟨rfl, rfl⟩
      simpa [Json.lookup_present hnodup, shape, Field.required, Field.optionalWith] using hthere)
  simp only [Json.lookup_present hnodup] at hlookup
  rw [decode, toJson_eq, Shape.read, hread, Except.ok_bind,
    Json.Record.get_eq (hlookup "name") hname, Json.Record.get_eq (hlookup "image") himage,
    getD_optional hf (hlookup "program"), Json.Record.getD_eq (hlookup "source-dir") hdir,
    getD_list hf (hlookup "languages"), getD_optional hf (hlookup "build-command"),
    getD_optional hf (hlookup "harness"), getD_optional hf (hlookup "compiler"),
    getD_list hf (hlookup "files-to-instrument")]
  rfl

end Snapshot

end Mutagenesis
