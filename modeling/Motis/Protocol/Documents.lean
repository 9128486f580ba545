import Motis.Protocol.TableProperties

/-! The JSON documents of a schema.

    A table is an object with its fields, an enum a text. A union is a table with its name, which is
    the `_type` of the object or stands beside it:

        tagged      { "content": { "_type": "Request", .. } }
        sibling     { "content_type": "Request", "content": { .. } }

    An optional field may be absent, and there may be members that no field is named for. What is
    generated from a schema has wider notions of a union beside its type:

        loose       the type is one of the names, and the value is one of the members
        strict      the value is the member that the type names; another type allows every value -/

namespace Motis.Protocol

/-! ### Formats -/

inductive UnionFormat where
  | tagged | sibling | strict | loose
  deriving DecidableEq, Repr

/-- `bounded` are the numbers of a type of less than 64 bits. -/
inductive IntFormat where
  | bounded | integer | number
  deriving DecidableEq, Repr

structure DocumentFormat where
  unions : UnionFormat
  ints : IntFormat
  deriving DecidableEq, Repr

namespace UnionFormat

/-- A union is there when its type is. -/
def paired : UnionFormat → Bool
  | .sibling => true
  | _ => false

/-- The type is the name of a member. -/
def named : UnionFormat → Bool
  | .sibling | .loose => true
  | _ => false

/-- The value is the member that the type names. -/
def cased : UnionFormat → Bool
  | .sibling | .strict => true
  | _ => false

/-- The value is one of the members. -/
def typed : UnionFormat → Bool
  | .strict => false
  | _ => true

end UnionFormat

/-- The numbers of an integer type. -/
def IntTypeName.InRange (type : IntTypeName) (n : ℤ) : Prop :=
  if type.unsigned then 0 ≤ n ∧ n < 2 ^ type.bits
  else -2 ^ (type.bits - 1) ≤ n ∧ n < 2 ^ (type.bits - 1)

def IntTypeName.Fits (type : IntTypeName) : IntFormat → JsonValue → Prop
  | .number, j => ∃ q, j = .number q
  | .integer, j => ∃ n : ℤ, j = .number n ∧ (type.unsigned = true → 0 ≤ n)
  | .bounded, j => ∃ n : ℤ, j = .number n ∧ (type.unsigned = true → 0 ≤ n) ∧
      (type.bits < 64 → type.InRange n)

def BasicType.Fits (ints : IntFormat) : BasicType → JsonValue → Prop
  | .bool, j => ∃ b, j = .bool b
  | .int type, j => type.Fits ints j
  | .float _, j => ∃ q, j = .number q
  | .string, j => ∃ s, j = .string s

/-! ### Documents -/

/-- What a value is read as: as a field of a type, or as a table, with its name in it or without. -/
inductive Shape where
  | value (type : FieldType)
  | table (key : String) (tagged : Bool)

/-- The name of a member of a union. -/
def UnionValue.tag (value : UnionValue) : String := lastName value.typeRef.resolvedFqtn

/-- The union of a field that has its type beside it. -/
def DocumentFormat.sibling (format : DocumentFormat) (schema : SchemaTypes) (field : TableField) :
    Option (TypeRef × List UnionValue) :=
  schema.siblingUnion (format.unions = .tagged) field

inductive Fits (schema : SchemaTypes) (format : DocumentFormat) : Shape → JsonValue → Prop
  | basic {type : BasicType} {j : JsonValue} : type.Fits format.ints j →
      Fits schema format (.value (.basic type)) j
  | vector {type : FieldType} {elements : List JsonValue} :
      (∀ x ∈ elements, Fits schema format (.value type) x) →
      Fits schema format (.value (.vector type)) (.array elements)
  | enum {ref : TypeRef} {base : TypeBase} {values : List AstEnumVal} {value : AstEnumVal} :
      schema.types.get ref.key = some (.enum base values) → value ∈ values →
      Fits schema format (.value (.custom ref)) (.string value.id)
  | union {ref : TypeRef} {base : TypeBase} {values : List UnionValue} {member : UnionValue}
      {j : JsonValue} : schema.types.get ref.key = some (.union base values) → member ∈ values →
      Fits schema format (.table member.typeRef.key (format.unions = .tagged)) j →
      Fits schema format (.value (.custom ref)) j
  | custom {ref : TypeRef} {t : TableType} {j : JsonValue} :
      schema.types.get ref.key = some (.table t) → Fits schema format (.table ref.key false) j →
      Fits schema format (.value (.custom ref)) j
  | object {key : String} {tagged : Bool} {t : TableType} {members : List (String × JsonValue)} :
      schema.types.get key = some (.table t) →
      (tagged = true → members.lookup "_type" = some (.string t.name)) →
      (∀ field ∈ t.fields, isRequired field.metadata = true →
        (members.lookup field.name).isSome = true ∧
        ((format.sibling schema field).isSome = true →
          (members.lookup field.tagName).isSome = true)) →
      (∀ field ∈ t.fields, format.unions.typed = true ∨ format.sibling schema field = none →
        ∀ v, members.lookup field.name = some v → Fits schema format (.value field.type) v) →
      (∀ field ∈ t.fields, ∀ ref values, format.sibling schema field = some (ref, values) →
        (format.unions.paired = true →
          (members.lookup field.tagName).isSome = (members.lookup field.name).isSome) ∧
        (format.unions.named = true → ∀ tag, members.lookup field.tagName = some tag →
          ∃ member ∈ values, tag = .string member.tag)) →
      (∀ field ∈ t.fields, ∀ ref values, format.sibling schema field = some (ref, values) →
        format.unions.cased = true → ∀ member ∈ values,
        (∀ tag, members.lookup field.tagName = some tag → tag = .string member.tag) →
        ∀ v, members.lookup field.name = some v →
          Fits schema format (.table member.typeRef.key false) v) →
      Fits schema format (.table key tagged) (.object members)

/-- What fits the definition for a form of a type. -/
def FormFits (schema : SchemaTypes) (format : DocumentFormat) (entry : String × SchemaType)
    (form : Form) (j : JsonValue) : Prop :=
  match entry.2, form with
  | .enum _ values, _ => ∃ value ∈ values, j = .string value.id
  | .union _ values, .tags => ∃ member ∈ values, j = .string member.tag
  | .union _ values, _ => ∃ member ∈ values,
      Fits schema format (.table member.typeRef.key (format.unions = .tagged)) j
  | .table _, form => Fits schema format (.table entry.1 (form = .tagged)) j

variable {schema : SchemaTypes} {format : DocumentFormat}

@[simp] theorem formFits_table (key : String) (t : TableType) (form : Form) (j : JsonValue) :
    FormFits schema format (key, .table t) form j ↔
      Fits schema format (.table key (form = .tagged)) j := Iff.rfl

/-- The definition of a type without a tag is what the type of a field refers to. -/
theorem formFits_untagged {ref : TypeRef} {t : SchemaType}
    (hget : schema.types.get ref.key = some t) (j : JsonValue) :
    FormFits schema format (ref.key, t) .untagged j ↔
      Fits schema format (.value (.custom ref)) j := by
  constructor
  · intro h
    cases t with
    | enum base values =>
      obtain ⟨value, hvalue, rfl⟩ := h
      exact .enum hget hvalue
    | union base values =>
      obtain ⟨member, hmember, h⟩ := h
      exact .union hget hmember h
    | table t => exact .custom hget (by simpa [FormFits] using h)
  · intro h
    cases h with
    | enum hget' hvalue =>
      cases hget.symm.trans hget'
      exact ⟨_, hvalue, rfl⟩
    | union hget' hmember h =>
      cases hget.symm.trans hget'
      exact ⟨_, hmember, h⟩
    | custom hget' h =>
      cases hget.symm.trans hget'
      simpa [FormFits] using h

/-! ### Integers -/

theorem neg_two_pow_bits (type : IntTypeName) :
    ((-2) ^ (type.bits - 1) : ℤ) = -2 ^ (type.bits - 1) := by
  cases type <;> decide

theorem inBounds_int (minimum maximum : Option ℤ) (n : ℤ) :
    InBounds minimum maximum (.number n) ↔ (∀ m ∈ minimum, m ≤ n) ∧ ∀ m ∈ maximum, n ≤ m := by
  constructor
  · intro h
    obtain ⟨hlow, hhigh⟩ := h n rfl
    exact ⟨fun m hm => Rat.intCast_le_intCast.mp (hlow m hm),
      fun m hm => Rat.intCast_le_intCast.mp (hhigh m hm)⟩
  · rintro ⟨hlow, hhigh⟩ q hq
    obtain rfl : (n : ℚ) = q := by simpa using hq
    exact ⟨fun m hm => Rat.intCast_le_intCast.mpr (hlow m hm),
      fun m hm => Rat.intCast_le_intCast.mpr (hhigh m hm)⟩

/-- What a context expects of an integer. -/
def JSContext.ints (ctx : JSContext) : IntFormat :=
  if ctx.strictIntTypes then .bounded else .integer

/-- The bounds of an integer are those of its type. -/
theorem intBounds_iff {ctx : JSContext} {type : IntTypeName} {format : Option String}
    {minimum maximum : Option ℤ}
    (h : basicTypeToJS ctx (.int type) = .basic .integer format minimum maximum) (n : ℤ) :
    ((∀ m ∈ minimum, m ≤ n) ∧ ∀ m ∈ maximum, n ≤ m) ↔ (type.unsigned = true → 0 ≤ n) ∧
      (ctx.strictIntTypes = true → type.bits < 64 → type.InRange n) := by
  rw [basicTypeToJS, neg_two_pow_bits] at h
  simp only [JSONSchema.basic.injEq, true_and] at h
  obtain ⟨-, rfl, rfl⟩ := h
  cases hu : type.unsigned with
  | true =>
    simp only [if_true, Option.mem_some_iff, forall_eq', IntTypeName.InRange, hu]
    rcases Classical.em (ctx.strictIntTypes = true ∧ type.bits < 64) with hstrict | hstrict
    · simp only [hstrict, decide_true, Bool.and_self, Bool.not_true, Bool.false_eq_true, if_false,
        Option.mem_some_iff, forall_eq', forall_const]
      omega
    · have hfalse : (ctx.strictIntTypes && decide (type.bits < 64)) = false := by
        simpa using hstrict
      simp only [hfalse, Bool.not_false, if_true, Option.not_mem_none, false_implies, implies_true,
        and_true, forall_const, iff_self_and]
      intro _ hs hbits
      exact absurd ⟨hs, hbits⟩ hstrict
  | false =>
    simp only [Bool.false_eq_true, if_false, false_implies, true_and, IntTypeName.InRange, hu]
    rcases Classical.em (ctx.strictIntTypes = true ∧ type.bits < 64) with hstrict | hstrict
    · simp only [hstrict, decide_true, Bool.and_self, Bool.not_true, Bool.false_eq_true, if_false,
        if_true, Option.mem_some_iff, forall_eq', forall_const]
      omega
    · have hfalse : (ctx.strictIntTypes && decide (type.bits < 64)) = false := by
        simpa using hstrict
      simp only [hfalse, Bool.not_false, Bool.false_eq_true, if_false, if_true, Option.not_mem_none,
        false_implies, implies_true, and_self, true_iff]
      intro hs hbits
      exact absurd ⟨hs, hbits⟩ hstrict

theorem intFits_iff (ctx : JSContext) (type : IntTypeName) (j : JsonValue) :
    type.Fits ctx.ints j ↔ ∃ n : ℤ, j = .number n ∧ (type.unsigned = true → 0 ≤ n) ∧
      (ctx.strictIntTypes = true → type.bits < 64 → type.InRange n) := by
  cases hstrict : ctx.strictIntTypes <;> simp [JSContext.ints, hstrict, IntTypeName.Fits]

theorem basicTypeToJS_holds {ctx : JSContext} (V : String → JsonValue → Prop) (type : BasicType)
    (j : JsonValue) : (basicTypeToJS ctx type).Holds V j ↔ type.Fits ctx.ints j := by
  cases type with
  | bool => simp [basicTypeToJS, JSONSchema.Holds, JSONSchemaType.Holds, InBounds, BasicType.Fits]
  | float type =>
    simp [basicTypeToJS, JSONSchema.Holds, JSONSchemaType.Holds, InBounds, BasicType.Fits]
  | string => simp [basicTypeToJS, JSONSchema.Holds, JSONSchemaType.Holds, InBounds, BasicType.Fits]
  | int type =>
    obtain ⟨format, minimum, maximum, hjs⟩ : ∃ format minimum maximum,
        basicTypeToJS ctx (.int type) = .basic .integer format minimum maximum := ⟨_, _, _, rfl⟩
    rw [hjs, BasicType.Fits, intFits_iff, JSONSchema.Holds, JSONSchemaType.Holds]
    constructor
    · rintro ⟨⟨n, rfl⟩, hbounds⟩
      exact ⟨n, rfl, (intBounds_iff hjs n).mp ((inBounds_int minimum maximum n).mp hbounds)⟩
    · rintro ⟨n, rfl, hrange⟩
      exact ⟨⟨n, rfl⟩, (inBounds_int minimum maximum n).mpr ((intBounds_iff hjs n).mpr hrange)⟩

/-! ### Wider formats -/

/-- Every union and every integer of one format is one of the other. -/
structure DocumentFormat.Within (format format' : DocumentFormat) : Prop where
  tagged : format.unions = .tagged ↔ format'.unions = .tagged
  paired : format'.unions.paired = true → format.unions.paired = true
  named : format'.unions.named = true → format.unions.named = true
  cased : format'.unions.cased = true → format.unions.cased = true
  typed : format'.unions.typed = true → format.unions.typed = true
  ints : ∀ (type : IntTypeName) (j : JsonValue), type.Fits format.ints j → type.Fits format'.ints j

theorem IntTypeName.fits_number {type : IntTypeName} {ints : IntFormat} {j : JsonValue}
    (h : type.Fits ints j) : type.Fits .number j := by
  cases ints with
  | number => exact h
  | integer =>
    obtain ⟨n, rfl, -⟩ := h
    exact ⟨n, rfl⟩
  | bounded =>
    obtain ⟨n, rfl, -⟩ := h
    exact ⟨n, rfl⟩

/-- A document of a format is one of every wider format. -/
theorem Fits.mono {format' : DocumentFormat} (hwithin : format.Within format') {shape : Shape}
    {j : JsonValue} (h : Fits schema format shape j) : Fits schema format' shape j := by
  have htagged : decide (format.unions = .tagged) = decide (format'.unions = .tagged) :=
    decide_eq_decide.mpr hwithin.tagged
  have hsibling : ∀ field, format'.sibling schema field = format.sibling schema field := by
    intro field
    rw [DocumentFormat.sibling, DocumentFormat.sibling, htagged]
  induction h with
  | @basic type j h =>
    cases type with
    | int type => exact .basic (hwithin.ints type j h)
    | bool => exact .basic h
    | float type => exact .basic h
    | string => exact .basic h
  | vector _ ih => exact .vector ih
  | enum hget hvalue => exact .enum hget hvalue
  | union hget hmember _ ih => exact .union hget hmember (by rw [← htagged]; exact ih)
  | custom hget _ ih => exact .custom hget ih
  | object hget htag hrequired _ hsiblings _ ih ihmember =>
    refine .object hget htag ?_ ?_ ?_ ?_
    · simpa only [hsibling] using hrequired
    · intro field hfield htyped v hv
      rw [hsibling] at htyped
      exact ih field hfield (htyped.imp_left hwithin.typed) v hv
    · intro field hfield ref values hunion
      rw [hsibling] at hunion
      obtain ⟨hpaired, hnamed⟩ := hsiblings field hfield ref values hunion
      exact ⟨fun h => hpaired (hwithin.paired h), fun h => hnamed (hwithin.named h)⟩
    · intro field hfield ref values hunion hcased
      rw [hsibling] at hunion
      exact ihmember field hfield ref values hunion (hwithin.cased hcased)

end Motis.Protocol
