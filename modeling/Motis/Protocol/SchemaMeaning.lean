import Motis.Lib.Guarded
import Motis.Lib.JsonValue
import Motis.Protocol.ReferenceClosure

/-! What a JSON Schema says about a value.

    A keyword that does not apply to a value says nothing about it: `properties` is about objects,
    and a bound is about numbers. A `$ref` says what the definition says that its URL names, so that
    the definitions of a bundle are equations between the predicates of the URLs:

        V url j   ↔   every keyword of the definition with the `$id` of `url` holds of `j` under `V`

    `format` and `discriminator` are annotations. -/

namespace Motis.Protocol

/-! ### Keywords -/

def JSONSchemaType.Holds : JSONSchemaType → JsonValue → Prop
  | .boolean, j => ∃ b, j = .bool b
  | .object, j => ∃ members, j = .object members
  | .array, j => ∃ elements, j = .array elements
  | .number, j => ∃ q, j = .number q
  | .string, j => ∃ s, j = .string s
  | .integer, j => ∃ n : ℤ, j = .number n

/-- `minimum` and `maximum`. -/
def InBounds (minimum maximum : Option ℤ) (j : JsonValue) : Prop :=
  ∀ q, j = .number q → (∀ m ∈ minimum, (m : ℚ) ≤ q) ∧ ∀ m ∈ maximum, q ≤ (m : ℚ)

section
variable (V : String → JsonValue → Prop)

def JSONSchema.Holds : JSONSchema → JsonValue → Prop
  | .basic type _ minimum maximum, j => type.Holds j ∧ InBounds minimum maximum j
  | .const value, j => j = .string value
  | .enum values, j => ∃ s ∈ values, j = .string s
  | .array items, j => ∃ elements, j = .array elements ∧ ∀ x ∈ elements, items.Holds x
  | .ref url, j => V url j

/-- `properties: { [name]: js }`. -/
def PropertyHolds (name : String) (js : JSONSchema) (j : JsonValue) : Prop :=
  ∀ v, j.get? name = some v → js.Holds V v

/-- One of the schemas holds, and no other one. -/
def OneOf (schemas : List JSONSchema) (j : JsonValue) : Prop :=
  ∃! i : ℕ, ∃ js, schemas[i]? = some js ∧ js.Holds V j

def UnionCase.Holds (c : UnionCase) (j : JsonValue) : Prop :=
  PropertyHolds V c.tagName c.tag j → PropertyHolds V c.name c.value j

/-- All keywords of a definition. -/
structure TypeSchema.Holds (js : TypeSchema) (j : JsonValue) : Prop where
  type : ∀ type, js.type = some type → type.Holds j
  enum : ∀ values, js.enum = some values → ∃ s ∈ values, j = .string s
  anyOf : ∀ schemas, js.anyOf = some schemas → ∃ js ∈ schemas, js.Holds V j
  oneOf : ∀ schemas, js.oneOf = some schemas → OneOf V schemas j
  properties : ∀ props, js.properties = some props →
    ∀ e ∈ props.entries, PropertyHolds V e.1 e.2 j
  allOf : ∀ c ∈ js.allOf, c.Holds V j
  required : j.isObject = true → ∀ name ∈ js.required, (j.get? name).isSome = true
  additionalProperties : js.additionalProperties = some false →
    ∀ name ∈ j.keys, ∃ props, js.properties = some props ∧ name ∈ props.entries.map (·.1)

end

/-! ### Bundles -/

/-- What the URLs of a bundle stand for. -/
def JsonSchemaBundle.Interprets (baseUri : BaseUri) (bundle : JsonSchemaBundle)
    (V : String → JsonValue → Prop) : Prop :=
  ∀ entry ∈ bundle.defs.entries, ∀ url, baseUri.resolves url entry →
    ∀ j, V url j ↔ entry.2.Holds V j

/-- The schema of the bundle itself: its `$ref` is the absolute URL of a definition. -/
def JsonSchemaBundle.Validates (bundle : JsonSchemaBundle) (V : String → JsonValue → Prop)
    (j : JsonValue) : Prop :=
  ∀ url, bundle.ref = some url → ∃ entry ∈ bundle.defs.entries, entry.2.id = some url ∧
    entry.2.Holds V j

/-! ### What a schema looks at -/

variable {V W : String → JsonValue → Prop}

theorem JSONSchema.holds_congr {js : JSONSchema} {j : JsonValue}
    (h : ∀ url ∈ js.refs, ∀ v, sizeOf v ≤ sizeOf j → (V url v ↔ W url v)) :
    js.Holds V j ↔ js.Holds W j := by
  induction js generalizing j with
  | basic type format minimum maximum => exact Iff.rfl
  | const value => exact Iff.rfl
  | enum values => exact Iff.rfl
  | ref url => exact h url (by simp [JSONSchema.refs]) j le_rfl
  | array items ih =>
    refine exists_congr fun elements => and_congr_right ?_
    rintro rfl
    refine forall₂_congr fun x hx => ih fun url hurl v hv => h url hurl v ?_
    have hsize := JsonValue.sizeOf_mem hx
    omega

theorem PropertyHolds.congr {name : String} {js : JSONSchema} {j : JsonValue}
    (h : ∀ url ∈ js.refs, ∀ v, sizeOf v < sizeOf j → (V url v ↔ W url v)) :
    PropertyHolds V name js j ↔ PropertyHolds W name js j := by
  refine forall₂_congr fun v hv => JSONSchema.holds_congr fun url hurl x hx => h url hurl x ?_
  have hsize := JsonValue.sizeOf_get? hv
  omega

/-- The `$ref`s that are about the value itself are those of `anyOf` and `oneOf`. -/
def TypeSchema.memberRefs (js : TypeSchema) : List String :=
  (js.anyOf.getD [] ++ js.oneOf.getD []).flatMap (·.refs)

theorem mem_refs_of_memberRefs {js : TypeSchema} {url : String} (h : url ∈ js.memberRefs) :
    ∃ p, (p, url) ∈ js.refs := by
  obtain ⟨s, hs, hurl⟩ := List.mem_flatMap.mp h
  simp only [TypeSchema.refs, List.mem_append, mem_memberRefs]
  rcases List.mem_append.mp hs with hs | hs
  · obtain ⟨i, hi⟩ := List.mem_iff_getElem?.mp hs
    exact ⟨.member i, .inl (.inl (.inl ⟨i, s, hi, hurl, rfl⟩))⟩
  · obtain ⟨i, hi⟩ := List.mem_iff_getElem?.mp hs
    exact ⟨.member i, .inl (.inl (.inr ⟨i, s, hi, hurl, rfl⟩))⟩

theorem TypeSchema.Holds.of_agree {js : TypeSchema} {j : JsonValue}
    (hsame : ∀ url ∈ js.memberRefs, ∀ v, sizeOf v ≤ sizeOf j → (V url v ↔ W url v))
    (hbelow : ∀ p url, (p, url) ∈ js.refs → ∀ v, sizeOf v < sizeOf j → (V url v ↔ W url v))
    (h : js.Holds V j) : js.Holds W j where
  type := h.type
  enum := h.enum
  anyOf schemas hschemas := by
    obtain ⟨s, hs, hholds⟩ := h.anyOf schemas hschemas
    refine ⟨s, hs, (JSONSchema.holds_congr fun url hurl => hsame url ?_).mp hholds⟩
    simp only [TypeSchema.memberRefs, hschemas, Option.getD_some, List.mem_flatMap]
    exact ⟨s, List.mem_append_left _ hs, hurl⟩
  oneOf schemas hschemas := by
    have hiff : ∀ i : ℕ, (∃ s : JSONSchema, schemas[i]? = some s ∧ s.Holds V j) ↔
        ∃ s : JSONSchema, schemas[i]? = some s ∧ s.Holds W j := by
      intro i
      refine exists_congr fun s => and_congr_right fun hs => ?_
      refine JSONSchema.holds_congr fun url hurl => hsame url ?_
      simp only [TypeSchema.memberRefs, hschemas, Option.getD_some, List.mem_flatMap]
      exact ⟨s, List.mem_append_right _ (List.mem_of_getElem? hs), hurl⟩
    exact (existsUnique_congr hiff).mp (h.oneOf schemas hschemas)
  properties props hprops e he := by
    refine (PropertyHolds.congr fun url hurl => hbelow (.property e.1) url ?_).mp
      (h.properties props hprops e he)
    simp only [TypeSchema.refs, hprops, Option.getD_some, List.mem_append, List.mem_flatMap]
    exact .inl (.inr ⟨e, he, List.mem_map.mpr ⟨url, hurl, rfl⟩⟩)
  allOf c hc htag := by
    have hcase : ∀ url ∈ c.tag.refs ++ c.value.refs, (Place.case c.tag c.name, url) ∈ js.refs := by
      intro url hurl
      simp only [TypeSchema.refs, List.mem_append, List.mem_flatMap]
      exact .inr ⟨c, hc, List.mem_map.mpr ⟨url, hurl, rfl⟩⟩
    refine (PropertyHolds.congr fun url hurl => ?_).mp (h.allOf c hc ?_)
    · exact hbelow _ url (hcase url (List.mem_append_right _ hurl))
    · refine (PropertyHolds.congr fun url hurl => ?_).mpr htag
      exact hbelow _ url (hcase url (List.mem_append_left _ hurl))
  required := h.required
  additionalProperties := h.additionalProperties

/-- A definition looks at the value itself for the members of a union, and below it otherwise. -/
theorem TypeSchema.holds_congr {js : TypeSchema} {j : JsonValue}
    (hsame : ∀ url ∈ js.memberRefs, ∀ v, sizeOf v ≤ sizeOf j → (V url v ↔ W url v))
    (hbelow : ∀ p url, (p, url) ∈ js.refs → ∀ v, sizeOf v < sizeOf j → (V url v ↔ W url v)) :
    js.Holds V j ↔ js.Holds W j := by
  constructor
  · exact TypeSchema.Holds.of_agree hsame hbelow
  · refine TypeSchema.Holds.of_agree ?_ ?_
    · exact fun url hurl v hv => (hsame url hurl v hv).symm
    · exact fun p url hmem v hv => (hbelow p url hmem v hv).symm

/-! ### The predicates of the URLs -/

namespace JsonSchemaBundle

/-- A URL in a definition names one, no URL names two, and members of a union have no members. -/
structure Flat (baseUri : BaseUri) (bundle : JsonSchemaBundle) : Prop where
  unique : ∀ entry ∈ bundle.defs.entries, ∀ entry' ∈ bundle.defs.entries, ∀ url,
    baseUri.resolves url entry → baseUri.resolves url entry' → entry = entry'
  closed : ∀ entry ∈ bundle.defs.entries, ∀ p url, (p, url) ∈ entry.2.refs →
    ∃ entry' ∈ bundle.defs.entries, baseUri.resolves url entry'
  members : ∀ entry ∈ bundle.defs.entries, ∀ url ∈ entry.2.memberRefs,
    ∀ entry' ∈ bundle.defs.entries, baseUri.resolves url entry' → entry'.2.memberRefs = []

/-- The equations of the definitions. -/
def equation (baseUri : BaseUri) (bundle : JsonSchemaBundle) (F : String × JsonValue → Prop)
    (a : String × JsonValue) : Prop :=
  ∃ entry ∈ bundle.defs.entries, baseUri.resolves a.1 entry ∧
    entry.2.Holds (fun url j => F (url, j)) a.2

open Classical in
/-- A union looks at its members before it goes down. -/
noncomputable def measure (baseUri : BaseUri) (bundle : JsonSchemaBundle) (a : String × JsonValue) :
    ℕ :=
  2 * sizeOf a.2 +
    if ∃ entry ∈ bundle.defs.entries, baseUri.resolves a.1 entry ∧ entry.2.memberRefs ≠ [] then 1
    else 0

variable {baseUri : BaseUri} {bundle : JsonSchemaBundle}

theorem measure_bounds (url : String) (j : JsonValue) :
    2 * sizeOf j ≤ measure baseUri bundle (url, j) ∧
      measure baseUri bundle (url, j) ≤ 2 * sizeOf j + 1 := by
  rw [measure]
  split <;> simp

theorem equation_guarded (hflat : bundle.Flat baseUri) :
    Guarded.IsGuarded (measure baseUri bundle) (equation baseUri bundle) := by
  rintro F G ⟨url, j⟩ hagree
  refine exists_congr fun entry => and_congr_right fun hentry => and_congr_right fun hurl => ?_
  refine TypeSchema.holds_congr ?_ ?_
  · intro url' hurl' v hv
    refine hagree (url', v) ?_
    simp only at hv
    have hunion : measure baseUri bundle (url, j) = 2 * sizeOf j + 1 := by
      rw [measure, if_pos ⟨entry, hentry, hurl, List.ne_nil_of_mem hurl'⟩]
    have hmember : measure baseUri bundle (url', v) = 2 * sizeOf v := by
      rw [measure, if_neg, Nat.add_zero]
      rintro ⟨entry', hentry', hresolves, hne⟩
      exact hne (hflat.members entry hentry url' hurl' entry' hentry' hresolves)
    omega
  · intro p url' _ v hv
    refine hagree (url', v) ?_
    simp only at hv
    have hlow := (@measure_bounds baseUri bundle url j).1
    have hhigh := (@measure_bounds baseUri bundle url' v).2
    omega

/-- The definitions say what their URLs stand for. -/
theorem exists_interprets (hflat : bundle.Flat baseUri) : ∃ V, bundle.Interprets baseUri V := by
  have hsolves := Guarded.solution_solves (equation_guarded hflat)
  refine ⟨fun url j => Guarded.solution (measure baseUri bundle) (equation baseUri bundle) (url, j),
    fun entry hentry url hurl j => (hsolves (url, j)).trans ?_⟩
  constructor
  · rintro ⟨entry', hentry', hurl', hholds⟩
    rwa [hflat.unique entry hentry entry' hentry' url hurl hurl']
  · exact fun hholds => ⟨entry, hentry, hurl, hholds⟩

theorem Interprets.solves (hflat : bundle.Flat baseUri) {V : String → JsonValue → Prop}
    (hV : bundle.Interprets baseUri V) : Guarded.Solves (equation baseUri bundle)
      fun a => (∃ entry ∈ bundle.defs.entries, baseUri.resolves a.1 entry) ∧ V a.1 a.2 := by
  have hagree : ∀ entry ∈ bundle.defs.entries, ∀ j, entry.2.Holds V j ↔ entry.2.Holds
      (fun url j => (∃ entry ∈ bundle.defs.entries, baseUri.resolves url entry) ∧ V url j) j := by
    intro entry hentry j
    refine TypeSchema.holds_congr ?_ ?_
    · intro url hurl v _
      obtain ⟨p, hp⟩ := mem_refs_of_memberRefs hurl
      simp [hflat.closed entry hentry p url hp]
    · intro p url hp v _
      simp [hflat.closed entry hentry p url hp]
  rintro ⟨url, j⟩
  constructor
  · rintro ⟨⟨entry, hentry, hurl⟩, hholds⟩
    exact ⟨entry, hentry, hurl, (hagree entry hentry j).mp ((hV entry hentry url hurl j).mp hholds)⟩
  · rintro ⟨entry, hentry, hurl, hholds⟩
    exact ⟨⟨entry, hentry, hurl⟩,
      (hV entry hentry url hurl j).mpr ((hagree entry hentry j).mpr hholds)⟩

/-- Nothing else can be read into them. -/
theorem interprets_unique (hflat : bundle.Flat baseUri) {V W : String → JsonValue → Prop}
    (hV : bundle.Interprets baseUri V) (hW : bundle.Interprets baseUri W)
    {entry : String × TypeSchema} (hentry : entry ∈ bundle.defs.entries) {url : String}
    (hurl : baseUri.resolves url entry) (j : JsonValue) : V url j ↔ W url j := by
  have hunique :=
    Guarded.unique (equation_guarded hflat) (hV.solves hflat) (hW.solves hflat) (url, j)
  simpa [show ∃ entry ∈ bundle.defs.entries, baseUri.resolves url entry from ⟨entry, hentry, hurl⟩]
    using hunique

end JsonSchemaBundle

end Motis.Protocol
