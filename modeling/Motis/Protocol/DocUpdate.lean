import Motis.Lib.KeyedUpdates
import Motis.Protocol.ResolvedSchema

/-! Reading and updating the documentation of a schema.

    There is a file for each namespace, a map with a map for each type:

        Connection:                          Connection:
          description: A journey               description: A journey
        Gone:                        ──▶       fields:
          description: TODO                      stops:
                                                   description: TODO

    A map that is missing or `null` is created, and any other value in its place is an error. The maps
    of `yaml` are association lists. -/

namespace Motis.Protocol.DocUpdate

/-! ### YAML -/

inductive Node where
  | null
  | string (value : String)
  /-- A number, a boolean or a date. -/
  | scalar (source : String)
  | seq (items : List Node)
  | map (items : List (String × Node))

abbrev YamlMap := List (String × Node)

/-- `removeUnknownKeys` returns the keys that it deletes. -/
def removeUnknownKeys (m : YamlMap) (keep : String → Bool) : YamlMap × List String :=
  let unknownKeys := (m.map (·.1)).filter (!keep ·)
  (unknownKeys.foldl (fun m s => m.filter (·.1 != s)) m, unknownKeys)

/-- The map that is at a place, or a new one. -/
def getOrCreateMap (node : Option Node) (path : String) : Except String YamlMap :=
  match node with
  | none | some .null => .ok []
  | some (.map items) => .ok items
  | some _ => .error s!"invalid yaml file: {path} is not a map"

/-! ### Documentation -/

/-- The items of a collection. -/
inductive Items where
  | nodes (items : List Node)
  | pairs (items : List (String × Node))

structure DocField where
  name : String
  description : Option String
  examples : Option Items

structure DocType where
  fqtn : String
  description : Option String
  examples : Items
  tags : List String
  fields : Option (List (String × DocField))

structure DocSchemaFile where
  «namespace» : String
  types : List String
  deriving DecidableEq, Repr

def getFqtn (file : DocSchemaFile) (key : String) : String :=
  if file.namespace ≠ "" then file.namespace ++ "." ++ key else key

/-- A description that is missing is `TODO` then. -/
def getOptStr (m : YamlMap) (key : String) : YamlMap × Option String :=
  match m.lookup key with
  | none | some .null => (InsertionMap.set m key (.string "TODO"), none)
  | some (.string val) => (m, if val ≠ "" ∧ val ≠ "TODO" then some val else none)
  | some _ => (m, none)

def collectionItems : Option Node → Option Items
  | some (.seq items) => some (.nodes items)
  | some (.map items) => some (.pairs items)
  | _ => none

def tagValues : Option Node → List String
  | some (.seq items) => items.filterMap fun
    | .string value => some value
    | _ => none
  | _ => []

def readField (name : String) (node : Option Node) : Except String (DocField × Node) := do
  let yf ← getOrCreateMap node name
  let (yf, description) := getOptStr yf "description"
  let examples := collectionItems (yf.lookup "examples")
  return ({ name, description, examples }, .map yf)

def readFields (t : TableType) (node : Option Node) :
    Except String (List (String × DocField) × Node) := do
  let fields ← getOrCreateMap node "fields"
  let (fields, _) := removeUnknownKeys fields fun key => t.fields.any (·.name == key)
  let (docFields, fields) ← InsertionMap.updateKeys readField (t.fields.map (·.name)) fields
  return (docFields.foldl (fun m f => InsertionMap.set m f.name f) [], .map fields)

def readAndUpdateType (schemaType : SchemaType) (yt : YamlMap) :
    Except String (DocType × YamlMap) := do
  let (yt, description) := getOptStr yt "description"
  let docType : DocType := {
    fqtn := joinDots schemaType.fqtn
    description
    examples := (collectionItems (yt.lookup "examples")).getD (.nodes [])
    tags := tagValues (yt.lookup "tags")
    fields := none }
  match schemaType with
  | .table t =>
    let (docFields, fields) ← readFields t (yt.lookup "fields")
    return ({ docType with fields := some docFields }, InsertionMap.set yt "fields" fields)
  | _ => return (docType, yt)

def readType (types : TypeMap) (file : DocSchemaFile) (tn : String) (node : Option Node) :
    Except String (DocType × Node) := do
  let yt ← getOrCreateMap node tn
  match types.get (getFqtn file tn) with
  | some schemaType =>
    let (docType, yt) ← readAndUpdateType schemaType yt
    return (docType, .map yt)
  | none => .error "unknown type: undefined"

def readAndUpdateSchemaFile (types : TypeMap) (file : DocSchemaFile) (contents : Option Node) :
    Except String (List DocType × Node) := do
  let root ← getOrCreateMap contents "root"
  let (root, _) := removeUnknownKeys root fun key => types.has (getFqtn file key)
  let (docTypes, root) ← InsertionMap.updateKeys (readType types file) file.types root
  return (docTypes, .map root)

/-- A type is added to the file of its namespace. -/
def addToFile (files : List (String × DocSchemaFile)) (type : SchemaType) :
    List (String × DocSchemaFile) :=
  let ns := joinDots type.base.ns
  let file := (files.lookup ns).getD { «namespace» := ns, types := [] }
  InsertionMap.set files ns { file with types := file.types ++ [type.base.name] }

def schemaFiles (types : TypeMap) : List (String × DocSchemaFile) :=
  types.foldl (fun files entry => addToFile files entry.2) []

/-- `contents` are the documents of the existing files. -/
def readAndUpdateSchemas (types : TypeMap) (contents : String → Option Node) :
    Except String (List (String × DocType) × List (String × Node)) := do
  let files ← (schemaFiles types).mapM fun (ns, file) => do
    let (docTypes, root) ← readAndUpdateSchemaFile types file (contents ns)
    return (docTypes, ns, root)
  let docTypes := files.flatMap (·.1)
  return (docTypes.foldl (fun m t => InsertionMap.set m t.fqtn t) [], files.map (·.2))

/-! ### What an update is -/

/-- A missing value, `null`, or a map whose keys are different. -/
def MapOrNull (node : Option Node) : Prop :=
  node = none ∨ node = some .null ∨ ∃ items, node = some (.map items) ∧ (items.map (·.1)).Nodup

def mapItems : Option Node → YamlMap
  | some (.map items) => items
  | _ => []

/-- The description after an update. -/
def describe : Option Node → Node
  | none | some .null => .string "TODO"
  | some node => node

/-- The description that is read. -/
def described : Node → Option String
  | .string val => if val ≠ "" ∧ val ≠ "TODO" then some val else none
  | _ => none

/-- What a field is after an update, and what is read of it. -/
structure UpdatedField (name : String) (old : Option Node) (new : YamlMap) (doc : DocField) :
    Prop where
  description : new.lookup "description" = some (describe ((mapItems old).lookup "description"))
  other : ∀ key ≠ "description", new.lookup key = (mapItems old).lookup key
  doc_name : doc.name = name
  doc_description : doc.description = (new.lookup "description").bind described

structure UpdatedFields (t : TableType) (old : Option Node) (new : YamlMap)
    (docs : List (String × DocField)) : Prop where
  keys : ∀ key, key ∈ new.map (·.1) ↔ key ∈ t.fields.map (·.name)
  doc_keys : ∀ key, key ∈ docs.map (·.1) ↔ key ∈ t.fields.map (·.name)
  field : ∀ name ∈ t.fields.map (·.name), ∃ m doc, new.lookup name = some (.map m) ∧
    docs.lookup name = some doc ∧ UpdatedField name ((mapItems old).lookup name) m doc

structure UpdatedType (type : SchemaType) (old : Option Node) (new : YamlMap) (doc : DocType) :
    Prop where
  description : new.lookup "description" = some (describe ((mapItems old).lookup "description"))
  other : ∀ key, key ≠ "description" → key ≠ "fields" →
    new.lookup key = (mapItems old).lookup key
  doc_fqtn : doc.fqtn = joinDots type.fqtn
  doc_description : doc.description = (new.lookup "description").bind described
  table : ∀ t, type = .table t → ∃ fields docs, new.lookup "fields" = some (.map fields) ∧
    doc.fields = some docs ∧ UpdatedFields t ((mapItems old).lookup "fields") fields docs
  noTable : (∀ t, type ≠ .table t) → doc.fields = none ∧
    new.lookup "fields" = (mapItems old).lookup "fields"

/-- A document has the types of its namespace after an update, with what it said about them before, and
    another update changes nothing. -/
def UpdatesExactly (schema : SchemaTypes) (file : DocSchemaFile) (contents : Option Node) : Prop :=
  ∃ docs root, readAndUpdateSchemaFile schema.types file contents = .ok (docs, .map root) ∧
    (∀ key, key ∈ root.map (·.1) ↔ ∃ entry ∈ schema.types,
      joinDots entry.2.base.ns = file.namespace ∧ entry.2.base.name = key) ∧
    docs.map (·.fqtn) = file.types.map (getFqtn file) ∧
    (∀ tn ∈ file.types, ∃ type m, schema.types.get (getFqtn file tn) = some type ∧
      root.lookup tn = some (.map m) ∧
        ∃ doc ∈ docs, UpdatedType type ((mapItems contents).lookup tn) m doc) ∧
    readAndUpdateSchemaFile schema.types file (some (.map root)) = .ok (docs, .map root)

/-- A document that can be updated: what stays is maps or `null`, and no key that is not a type of the
    namespace is together with it the name of another type. -/
structure Updatable (types : TypeMap) (file : DocSchemaFile) (contents : Option Node) : Prop where
  root : MapOrNull contents
  known : ∀ key ∈ (mapItems contents).map (·.1), types.has (getFqtn file key) = true →
    key ∈ file.types
  type : ∀ tn ∈ file.types, MapOrNull ((mapItems contents).lookup tn)
  fields : ∀ tn ∈ file.types, ∀ t, types.get (getFqtn file tn) = some (.table t) →
    MapOrNull ((mapItems ((mapItems contents).lookup tn)).lookup "fields") ∧
      ∀ name ∈ t.fields.map (·.name), MapOrNull
        ((mapItems ((mapItems ((mapItems contents).lookup tn)).lookup "fields")).lookup name)

/-! ### Maps -/

theorem removeUnknownKeys_eq (m : YamlMap) (keep : String → Bool) :
    (removeUnknownKeys m keep).1 = m.filter fun e => keep e.1 := by
  have hrun : ∀ (keys : List String) (m : YamlMap),
      keys.foldl (fun m s => m.filter (·.1 != s)) m = m.filter fun e => !keys.contains e.1 := by
    intro keys
    induction keys with
    | nil => intro m; simp
    | cons key keys ih =>
      intro m
      rw [List.foldl_cons, ih, List.filter_filter]
      refine List.filter_congr fun e _ => ?_
      rw [List.contains_cons, Bool.not_or, Bool.and_comm]
      rfl
  rw [removeUnknownKeys, hrun]
  refine List.filter_congr fun e he => ?_
  have hkey : e.1 ∈ m.map (·.1) := List.mem_map_of_mem he
  cases hkeep : keep e.1 <;> simp [hkeep, hkey]

theorem getOrCreateMap_ok {node : Option Node} (h : MapOrNull node) (path : String) :
    getOrCreateMap node path = .ok (mapItems node) := by
  rcases h with rfl | rfl | ⟨items, rfl, -⟩ <;> rfl

theorem nodup_mapItems {node : Option Node} (h : MapOrNull node) :
    ((mapItems node).map (·.1)).Nodup := by
  rcases h with rfl | rfl | ⟨items, rfl, hnodup⟩
  · exact List.nodup_nil
  · exact List.nodup_nil
  · exact hnodup

theorem mapOrNull_map {m : YamlMap} (h : (m.map (·.1)).Nodup) : MapOrNull (some (.map m)) :=
  .inr (.inr ⟨m, rfl, h⟩)

/-! ### Descriptions -/

theorem nodup_getOptStr {m : YamlMap} (h : (m.map (·.1)).Nodup) (key : String) :
    ((getOptStr m key).1.map (·.1)).Nodup := by
  rw [getOptStr]
  split
  · exact InsertionMap.nodup_set h _ _
  · exact InsertionMap.nodup_set h _ _
  · exact h
  · exact h

theorem lookup_getOptStr (m : YamlMap) (key : String) :
    (getOptStr m key).1.lookup key = some (describe (m.lookup key)) := by
  rw [getOptStr]
  split
  · next h => rw [InsertionMap.lookup_set_self, h]; rfl
  · next h => rw [InsertionMap.lookup_set_self, h]; rfl
  · next h => exact h.trans (by rw [h]; rfl)
  · next node hnull _ h =>
    rw [h]
    cases node with
    | null => exact absurd rfl hnull
    | _ => rfl

theorem lookup_getOptStr_of_ne {m : YamlMap} {key key' : String} (h : key' ≠ key) :
    (getOptStr m key).1.lookup key' = m.lookup key' := by
  rw [getOptStr]
  split
  · exact InsertionMap.lookup_set_of_ne h _
  · exact InsertionMap.lookup_set_of_ne h _
  · rfl
  · rfl

theorem getOptStr_read (m : YamlMap) (key : String) :
    (getOptStr m key).2 = described (describe (m.lookup key)) := by
  rw [getOptStr]
  split
  · next h => rw [h]; rfl
  · next h => rw [h]; rfl
  · next h => rw [h]; rfl
  · next node hnull hstring h =>
    rw [h]
    cases node with
    | null => exact absurd rfl hnull
    | string val => exact absurd rfl (hstring val)
    | _ => rfl

theorem describe_ne_null (node : Option Node) : describe node ≠ .null := by
  rcases node with _ | ⟨⟩ | _ | _ | _ | _ <;> exact nofun

theorem describe_describe (node : Option Node) : describe (some (describe node)) = describe node := by
  rcases node with _ | ⟨⟩ | _ | _ | _ | _ <;> rfl

theorem getOptStr_of_ne_null {m : YamlMap} {key : String} {node : Node}
    (h : m.lookup key = some node) (hnull : node ≠ .null) : (getOptStr m key).1 = m := by
  rw [getOptStr, h]
  cases node with
  | null => exact absurd rfl hnull
  | _ => rfl

/-- A description is written once. -/
theorem getOptStr_twice (m : YamlMap) (key : String) :
    getOptStr (getOptStr m key).1 key = getOptStr m key := by
  have hlookup := lookup_getOptStr m key
  refine Prod.ext (getOptStr_of_ne_null hlookup (describe_ne_null _)) ?_
  rw [getOptStr_read, getOptStr_read, hlookup, describe_describe]

/-! ### Fields -/

theorem readField_eq (name : String) {node : Option Node} (h : MapOrNull node) :
    readField name node = .ok (⟨name, (getOptStr (mapItems node) "description").2,
      collectionItems ((getOptStr (mapItems node) "description").1.lookup "examples")⟩,
      .map (getOptStr (mapItems node) "description").1) := by
  rw [readField, getOrCreateMap_ok h]
  rfl

theorem readField_spec (name : String) {node : Option Node} (h : MapOrNull node) :
    ∃ m doc, readField name node = .ok (doc, .map m) ∧
      readField name (some (.map m)) = .ok (doc, .map m) ∧ UpdatedField name node m doc := by
  refine ⟨_, _, readField_eq name h, ?_, ?_⟩
  · rw [readField_eq name (mapOrNull_map (nodup_getOptStr (nodup_mapItems h) "description")),
      mapItems, getOptStr_twice]
  · refine ⟨lookup_getOptStr _ _, fun key hkey => lookup_getOptStr_of_ne hkey, rfl, ?_⟩
    change (getOptStr (mapItems node) "description").2 = _
    rw [lookup_getOptStr, getOptStr_read]
    rfl

/-- The fields of the documentation, by name. -/
theorem lookup_docFields {docs : List DocField} {names : List String} {c : String → DocField}
    (hdocs : docs = names.map c) (hname : ∀ name ∈ names, (c name).name = name)
    (m : List (String × DocField)) (key : String) :
    (docs.foldl (fun m f => InsertionMap.set m f.name f) m).lookup key =
      if key ∈ names then some (c key) else m.lookup key := by
  subst hdocs
  induction names generalizing m with
  | nil => simp
  | cons name names ih =>
    rw [List.map_cons, List.foldl_cons, ih fun name' h => hname name' (List.mem_cons_of_mem _ h),
      hname name List.mem_cons_self]
    by_cases hmem : key ∈ names
    · rw [if_pos hmem, if_pos (List.mem_cons_of_mem _ hmem)]
    · rw [if_neg hmem]
      by_cases hkey : key = name
      · rw [hkey, InsertionMap.lookup_set_self, if_pos List.mem_cons_self]
      · rw [InsertionMap.lookup_set_of_ne hkey, if_neg]
        exact fun hcons => (List.mem_cons.mp hcons).elim hkey hmem

section Fields

variable {t : TableType} {node : Option Node}

/-- The fields of the table that are documented. -/
def knownFields (t : TableType) (node : Option Node) : YamlMap :=
  (mapItems node).filter fun e => t.fields.any (·.name == e.1)

theorem any_iff {key : String} :
    t.fields.any (·.name == key) = true ↔ key ∈ t.fields.map (·.name) := by
  simp [List.mem_map]

theorem readFields_eq (h : MapOrNull node) {cs : List DocField} {m : YamlMap}
    (hrun : InsertionMap.updateKeys readField (t.fields.map (·.name)) (knownFields t node) =
      .ok (cs, m)) :
    readFields t node = .ok (cs.foldl (fun m f => InsertionMap.set m f.name f) [], .map m) := by
  rw [readFields, getOrCreateMap_ok h]
  change (InsertionMap.updateKeys readField (t.fields.map (·.name))
    (removeUnknownKeys (mapItems node) fun key => t.fields.any (·.name == key)).1).bind _ = _
  rw [removeUnknownKeys_eq]
  change (InsertionMap.updateKeys readField (t.fields.map (·.name)) (knownFields t node)).bind _ = _
  rw [hrun]
  rfl

theorem readFields_spec (h : MapOrNull node)
    (hfields : ∀ name ∈ t.fields.map (·.name), MapOrNull ((mapItems node).lookup name)) :
    ∃ m docs, readFields t node = .ok (docs, .map m) ∧
      readFields t (some (.map m)) = .ok (docs, .map m) ∧ UpdatedFields t node m docs := by
  have hfield : ∀ name, ∃ m doc, MapOrNull ((mapItems node).lookup name) →
      readField name ((mapItems node).lookup name) = .ok (doc, .map m) ∧
        readField name (some (.map m)) = .ok (doc, .map m) ∧
          UpdatedField name ((mapItems node).lookup name) m doc := by
    intro name
    by_cases hname : MapOrNull ((mapItems node).lookup name)
    · obtain ⟨m, doc, hspec⟩ := readField_spec name hname
      exact ⟨m, doc, fun _ => hspec⟩
    · exact ⟨[], ⟨name, none, none⟩, fun h => absurd h hname⟩
  choose maps docs hspec using hfield
  obtain ⟨m, hrun, hagain, hnodup, hkeys, hlookup⟩ := InsertionMap.updateKeys_filter
    (c := docs) (v := fun name => .map (maps name)) (fun name hname => any_iff.mpr hname)
    (fun name _ hname => any_iff.mp hname) (fun name hname => (hspec name (hfields name hname)).1)
    (fun name hname => (hspec name (hfields name hname)).2.1) (nodup_mapItems h)
  have hdocs := lookup_docFields (c := docs) rfl
    (fun name hname => (hspec name (hfields name hname)).2.2.doc_name) []
  refine ⟨m, _, readFields_eq h hrun, readFields_eq (mapOrNull_map hnodup) hagain, hkeys, ?_, ?_⟩
  · intro key
    rw [← InsertionMap.isSome_lookup, hdocs]
    split_ifs with hmem
    · exact iff_of_true rfl hmem
    · exact iff_of_false Bool.false_ne_true hmem
  · intro name hname
    exact ⟨maps name, docs name, hlookup name hname, by rw [hdocs, if_pos hname],
      (hspec name (hfields name hname)).2.2⟩

end Fields

/-! ### Types -/

theorem readAndUpdateType_table {t : TableType} {yt : YamlMap} {docs : List (String × DocField)}
    {fields : Node}
    (h : readFields t ((getOptStr yt "description").1.lookup "fields") = .ok (docs, fields)) :
    readAndUpdateType (.table t) yt =
      .ok (⟨joinDots (SchemaType.table t).fqtn, (getOptStr yt "description").2,
        (collectionItems ((getOptStr yt "description").1.lookup "examples")).getD (.nodes []),
        tagValues ((getOptStr yt "description").1.lookup "tags"), some docs⟩,
        InsertionMap.set (getOptStr yt "description").1 "fields" fields) := by
  rw [readAndUpdateType]
  change (readFields t ((getOptStr yt "description").1.lookup "fields")).bind _ = _
  rw [h]
  rfl

theorem readAndUpdateType_spec (type : SchemaType) {node : Option Node} (h : MapOrNull node)
    (hfields : ∀ t, type = .table t → MapOrNull ((mapItems node).lookup "fields") ∧
      ∀ name ∈ t.fields.map (·.name),
        MapOrNull ((mapItems ((mapItems node).lookup "fields")).lookup name)) :
    ∃ m doc, readAndUpdateType type (mapItems node) = .ok (doc, m) ∧
      readAndUpdateType type m = .ok (doc, m) ∧ (m.map (·.1)).Nodup ∧
        UpdatedType type node m doc := by
  have hnodup := nodup_getOptStr (nodup_mapItems h) "description"
  have hnoTable : (∀ t, type ≠ .table t) → ∀ yt : YamlMap, readAndUpdateType type yt =
      .ok (⟨joinDots type.fqtn, (getOptStr yt "description").2,
        (collectionItems ((getOptStr yt "description").1.lookup "examples")).getD (.nodes []),
        tagValues ((getOptStr yt "description").1.lookup "tags"), none⟩,
        (getOptStr yt "description").1) := by
    intro hne yt
    cases type with
    | enum base values => rfl
    | union base values => rfl
    | table t => exact absurd rfl (hne t)
  have hread : (getOptStr (mapItems node) "description").2 =
      ((getOptStr (mapItems node) "description").1.lookup "description").bind described := by
    rw [lookup_getOptStr, getOptStr_read]
    rfl
  by_cases htable : ∃ t, type = .table t
  · obtain ⟨t, rfl⟩ := htable
    obtain ⟨hnode, hnames⟩ := hfields t rfl
    have hsame : (getOptStr (mapItems node) "description").1.lookup "fields" =
        (mapItems node).lookup "fields" := lookup_getOptStr_of_ne (by decide)
    obtain ⟨fs, docs, hrun, hagain, hupdated⟩ := readFields_spec hnode hnames
    rw [← hsame] at hrun
    have hfirst := readAndUpdateType_table hrun
    generalize hyt : (getOptStr (mapItems node) "description").1 = yt at *
    have hother : ∀ key ≠ "fields",
        (InsertionMap.set yt "fields" (.map fs)).lookup key = yt.lookup key :=
      fun key hkey => InsertionMap.lookup_set_of_ne hkey _
    have hself : (InsertionMap.set yt "fields" (.map fs)).lookup "fields" = some (.map fs) :=
      InsertionMap.lookup_set_self _ _ _
    have hnodup' := InsertionMap.nodup_set hnodup "fields" (.map fs)
    have hdescription : yt.lookup "description" =
        some (describe ((mapItems node).lookup "description")) := by
      rw [← hyt, lookup_getOptStr]
    have hstay : (getOptStr (InsertionMap.set yt "fields" (.map fs)) "description").1 =
        InsertionMap.set yt "fields" (.map fs) :=
      getOptStr_of_ne_null ((hother _ (by decide)).trans hdescription) (describe_ne_null _)
    have hread' : (getOptStr (InsertionMap.set yt "fields" (.map fs)) "description").2 =
        (getOptStr (mapItems node) "description").2 := by
      rw [getOptStr_read, hother _ (by decide), hdescription, getOptStr_read, describe_describe]
    refine ⟨_, _, hfirst, ?_, hnodup', ?_⟩
    · have hrun' : readFields t ((getOptStr (InsertionMap.set yt "fields" (.map fs))
          "description").1.lookup "fields") = .ok (docs, .map fs) := by
        rw [hstay, hself]
        exact hagain
      rw [readAndUpdateType_table hrun', hstay, hread', hother "examples" (by decide),
        hother "tags" (by decide), InsertionMap.set_eq_self hnodup' hself]
    · refine ⟨(hother _ (by decide)).trans hdescription, fun key hkey hkey' => ?_, rfl, ?_, ?_,
        fun hne => absurd rfl (hne t)⟩
      · rw [hother key hkey', ← hyt, lookup_getOptStr_of_ne hkey]
      · rw [hother _ (by decide), ← hread]
      · intro t' heq
        obtain rfl := SchemaType.table.inj heq
        exact ⟨fs, docs, hself, rfl, hupdated⟩
  · have hne : ∀ t, type ≠ .table t := fun t heq => htable ⟨t, heq⟩
    refine ⟨_, _, hnoTable hne _, ?_, hnodup, ?_⟩
    · rw [hnoTable hne, getOptStr_twice]
    · refine ⟨lookup_getOptStr _ _, fun key hkey _ => lookup_getOptStr_of_ne hkey, rfl, hread,
        fun t heq => absurd heq (hne t), fun _ => ⟨rfl, lookup_getOptStr_of_ne (by decide)⟩⟩

/-! ### Files -/

/-- The names of the types of a namespace. -/
def typesIn (types : TypeMap) (ns : String) : List String :=
  (types.filter fun entry => joinDots entry.2.base.ns == ns).map (·.2.base.name)

theorem foldl_types (file : DocSchemaFile) (entries : TypeMap) :
    entries.foldl (fun file entry => { file with types := file.types ++ [entry.2.base.name] }) file =
      { file with types := file.types ++ entries.map (·.2.base.name) } := by
  induction entries generalizing file with
  | nil => simp
  | cons entry entries ih =>
    rw [List.foldl_cons, ih]
    simp

/-- A file has the types of its namespace. -/
theorem file_eq {types : TypeMap} {ns : String} {file : DocSchemaFile}
    (h : (ns, file) ∈ schemaFiles types) : file = ⟨ns, typesIn types ns⟩ := by
  let key (entry : String × SchemaType) := joinDots entry.2.base.ns
  let init (ns : String) : DocSchemaFile := ⟨ns, []⟩
  let new (entry : String × SchemaType) := init (key entry)
  let add (file : DocSchemaFile) (entry : String × SchemaType) :=
    { file with types := file.types ++ [entry.2.base.name] }
  have hnew : ∀ entry ∈ types, new entry = init (key entry) := fun _ _ => rfl
  have hfile : (types.foldl (InsertionMap.addToGroup key new add) []).lookup ns = some file :=
    (InsertionMap.lookup_eq_some (InsertionMap.nodup_groups types)).mpr h
  rw [InsertionMap.lookup_groups init hnew] at hfile
  split_ifs at hfile
  rw [← Option.some.inj hfile, foldl_types]
  rfl

section Files

variable {schema : SchemaTypes} {file : DocSchemaFile} {ns : String} {contents : Option Node}

theorem mem_types (hfile : (ns, file) ∈ schemaFiles schema.types) {tn : String} :
    tn ∈ file.types ↔ ∃ entry ∈ schema.types, joinDots entry.2.base.ns = file.namespace ∧
      entry.2.base.name = tn := by
  rw [file_eq hfile]
  simp [typesIn, and_assoc]

theorem getFqtn_eq (hresolved : schema.IsResolved) {entry : String × SchemaType}
    (hentry : entry ∈ schema.types) (hns : joinDots entry.2.base.ns = file.namespace) :
    getFqtn file entry.2.base.name = entry.1 := by
  have hkey := hresolved.key entry hentry
  have hident := hresolved.ident entry hentry
  rw [SchemaType.fqtn] at hkey hident
  rw [getFqtn, ← hns, hkey]
  by_cases hnil : entry.2.base.ns = []
  · rw [hnil]
    simp [joinDots]
  · rw [if_pos (joinDots_ne_empty hnil fun id hid => hident id (List.mem_append_left _ hid)),
      joinDots_append_singleton hnil]

/-- The type of a name in a file. -/
theorem get_type (hresolved : schema.IsResolved) (hfile : (ns, file) ∈ schemaFiles schema.types)
    {tn : String} (htn : tn ∈ file.types) :
    ∃ type, schema.types.get (getFqtn file tn) = some type ∧
      joinDots type.fqtn = getFqtn file tn := by
  obtain ⟨entry, hentry, hns, rfl⟩ := (mem_types hfile).mp htn
  rw [getFqtn_eq hresolved hentry hns]
  exact ⟨entry.2, (InsertionMap.lookup_eq_some hresolved.nodup).mpr hentry,
    (hresolved.key entry hentry).symm⟩

theorem has_type (hresolved : schema.IsResolved) (hfile : (ns, file) ∈ schemaFiles schema.types)
    {tn : String} (htn : tn ∈ file.types) : schema.types.has (getFqtn file tn) = true := by
  obtain ⟨entry, hentry, hns, rfl⟩ := (mem_types hfile).mp htn
  rw [getFqtn_eq hresolved hentry hns, TypeMap.has_iff]
  exact List.mem_map_of_mem hentry

theorem readType_spec {tn : String} {type : SchemaType} {node : Option Node}
    (htype : schema.types.get (getFqtn file tn) = some type) (h : MapOrNull node)
    (hfields : ∀ t, type = .table t → MapOrNull ((mapItems node).lookup "fields") ∧
      ∀ name ∈ t.fields.map (·.name),
        MapOrNull ((mapItems ((mapItems node).lookup "fields")).lookup name)) :
    ∃ m doc, readType schema.types file tn node = .ok (doc, .map m) ∧
      readType schema.types file tn (some (.map m)) = .ok (doc, .map m) ∧
        UpdatedType type node m doc := by
  obtain ⟨m, doc, hrun, hagain, hnodup, hupdated⟩ := readAndUpdateType_spec type h hfields
  refine ⟨m, doc, ?_, ?_, hupdated⟩
  · rw [readType, getOrCreateMap_ok h, htype]
    change (readAndUpdateType type (mapItems node)).bind _ = _
    rw [hrun]
    rfl
  · rw [readType, getOrCreateMap_ok (mapOrNull_map hnodup), htype]
    change (readAndUpdateType type m).bind _ = _
    rw [hagain]
    rfl

/-- The keys of a document that are types. -/
def knownTypes (types : TypeMap) (file : DocSchemaFile) (contents : Option Node) : YamlMap :=
  (mapItems contents).filter fun e => types.has (getFqtn file e.1)

theorem readAndUpdateSchemaFile_eq {types : TypeMap} (h : MapOrNull contents) {docs : List DocType}
    {root : YamlMap} (hrun : InsertionMap.updateKeys (readType types file) file.types
      (knownTypes types file contents) = .ok (docs, root)) :
    readAndUpdateSchemaFile types file contents = .ok (docs, .map root) := by
  rw [readAndUpdateSchemaFile, getOrCreateMap_ok h]
  change (InsertionMap.updateKeys (readType types file) file.types
    (removeUnknownKeys (mapItems contents) fun key => types.has (getFqtn file key)).1).bind _ = _
  rw [removeUnknownKeys_eq]
  change (InsertionMap.updateKeys (readType types file) file.types
    (knownTypes types file contents)).bind _ = _
  rw [hrun]
  rfl

theorem readAndUpdateSchemaFile_exact (schema : SchemaTypes) (hresolved : schema.IsResolved)
    (ns : String) (file : DocSchemaFile) (hfile : (ns, file) ∈ schemaFiles schema.types)
    (contents : Option Node) (hdoc : Updatable schema.types file contents) :
    UpdatesExactly schema file contents := by
  have htype : ∀ tn, ∃ type m doc, tn ∈ file.types →
      schema.types.get (getFqtn file tn) = some type ∧
      joinDots type.fqtn = getFqtn file tn ∧
      readType schema.types file tn ((mapItems contents).lookup tn) = .ok (doc, .map m) ∧
      readType schema.types file tn (some (.map m)) = .ok (doc, .map m) ∧
      UpdatedType type ((mapItems contents).lookup tn) m doc := by
    intro tn
    by_cases htn : tn ∈ file.types
    · obtain ⟨type, hget, hfqtn⟩ := get_type hresolved hfile htn
      obtain ⟨m, doc, hspec⟩ := readType_spec hget (hdoc.type tn htn)
        fun t ht => hdoc.fields tn htn t (ht ▸ hget)
      exact ⟨type, m, doc, fun _ => ⟨hget, hfqtn, hspec⟩⟩
    · exact ⟨.enum ⟨"", [], "", "", none⟩ [], [], ⟨"", none, .nodes [], [], none⟩,
        fun h => absurd h htn⟩
  choose type maps docs hspec using htype
  obtain ⟨root, hrun, hagain, hnodup, hkeys, hlookup⟩ := InsertionMap.updateKeys_filter
    (c := docs) (v := fun tn => .map (maps tn)) (fun tn htn => has_type hresolved hfile htn)
    hdoc.known (fun tn htn => (hspec tn htn).2.2.1) (fun tn htn => (hspec tn htn).2.2.2.1)
    (nodup_mapItems hdoc.root)
  refine ⟨file.types.map docs, root, readAndUpdateSchemaFile_eq hdoc.root hrun, fun key => ?_, ?_,
    fun tn htn => ?_, readAndUpdateSchemaFile_eq (mapOrNull_map hnodup) hagain⟩
  · rw [hkeys, mem_types hfile]
  · rw [List.map_map]
    refine List.map_congr_left fun tn htn => ?_
    obtain ⟨-, hfqtn, -, -, hupdated⟩ := hspec tn htn
    exact hupdated.doc_fqtn.trans hfqtn
  · obtain ⟨hget, -, -, -, hupdated⟩ := hspec tn htn
    exact ⟨type tn, maps tn, hget, hlookup tn htn, docs tn, List.mem_map_of_mem htn,
      hupdated⟩

end Files

/-! ### A small schema -/

/-- A table with a field, and an enum in the namespace around it. -/
def nested : SchemaTypes where
  types := [("a.b.T", .table ⟨⟨"T", ["a", "b"], "t", "t", none⟩, false,
      [⟨"x", .basic .string, none, none⟩], false, false⟩),
    ("a.S", .enum ⟨"S", ["a"], "t", "t", none⟩ [])]
  rootType := none

theorem isResolved_nested : nested.IsResolved :=
  .of_checks (by decide) (by decide) (by decide) (by decide) (by decide)

/-- A table with a field that is gone, and a type that is gone. -/
def outdated : Node :=
  .map [("T", .map [("description", .string "A table"), ("fields", .map [("gone", .null)])]),
    ("Gone", .string "text")]

theorem updatable_outdated : Updatable nested.types ⟨"a.b", ["T"]⟩ (some outdated) := by
  constructor
  · exact mapOrNull_map (by decide)
  · decide
  · intro tn htn
    obtain rfl := List.mem_singleton.mp htn
    exact mapOrNull_map (by decide)
  · intro tn htn t ht
    obtain rfl := List.mem_singleton.mp htn
    obtain rfl := SchemaType.table.inj (Option.some.inj ht)
    refine ⟨mapOrNull_map (by decide), fun name hname => ?_⟩
    obtain rfl := List.mem_singleton.mp hname
    exact .inl rfl

theorem readAndUpdateSchemaFile_exact_outdated :
    UpdatesExactly nested ⟨"a.b", ["T"]⟩ (some outdated) :=
  readAndUpdateSchemaFile_exact nested isResolved_nested "a.b" _ (by decide) _ updatable_outdated

/-- A text in the place of a type is an error, an empty description is not read, and a key with a dot
    stays if it is a type of another namespace. -/
theorem not_exact_text_empty_dot : (¬ ∀ (schema : SchemaTypes), schema.IsResolved →
      ∀ (ns : String) (file : DocSchemaFile), (ns, file) ∈ schemaFiles schema.types →
        ∀ items : YamlMap, (items.map (·.1)).Nodup →
          UpdatesExactly schema file (some (.map items))) ∧
    (∃ docs root, readAndUpdateSchemaFile nested.types ⟨"a", ["S"]⟩
        (some (.map [("S", .map [("description", .string "")])])) = .ok (docs, .map root) ∧
      root.lookup "S" = some (.map [("description", .string "")]) ∧
        docs.map (·.description) = [none]) ∧
    ∃ docs root, readAndUpdateSchemaFile nested.types ⟨"a", ["S"]⟩
        (some (.map [("b.T", .map [])])) = .ok (docs, .map root) ∧ "b.T" ∈ root.map (·.1) := by
  refine ⟨fun hall => ?_, ⟨_, _, rfl, rfl, rfl⟩, _, _, rfl, List.mem_cons_self⟩
  obtain ⟨docs, root, hrun, -⟩ := hall nested isResolved_nested "a.b" ⟨"a.b", ["T"]⟩ (by decide)
    [("T", .string "text")] (by decide)
  have herror : readAndUpdateSchemaFile nested.types ⟨"a.b", ["T"]⟩
      (some (.map [("T", .string "text")])) = .error "invalid yaml file: T is not a map" := by
    rfl
  rw [herror] at hrun
  cases hrun

end Motis.Protocol.DocUpdate
