import Motis.Protocol.SchemaFiles

/-! Every reference is bound, and the types it refers to are marked.

    Binding references and marking types changes no name, so all references are looked up in the same
    names, and marks commute with what is assigned to references. -/

namespace Motis.Protocol
open Traversal

/-! ### References -/

def FieldType.refs : FieldType → List TypeRef
  | .basic _ => []
  | .vector type => type.refs
  | .custom ref => [ref]

def FieldType.mapRefs (f : TypeRef → TypeRef) : FieldType → FieldType
  | .basic type => .basic type
  | .vector type => .vector (type.mapRefs f)
  | .custom ref => .custom (f ref)

/-- The references of the fields of a table, those in vectors, too. -/
def SchemaType.tableRefs : SchemaType → List TypeRef
  | .table t => t.fields.flatMap fun f => f.type.refs
  | _ => []

/-- The references of the members of a union. -/
def SchemaType.unionRefs : SchemaType → List TypeRef
  | .union _ values => values.map (·.typeRef)
  | _ => []

def SchemaType.refs (t : SchemaType) : List TypeRef := t.tableRefs ++ t.unionRefs

def SchemaType.mapRefs (f : TypeRef → TypeRef) : SchemaType → SchemaType
  | .enum base values => .enum base values
  | .union base values => .union base (values.map fun uv => { uv with typeRef := f uv.typeRef })
  | .table t => .table { t with
      fields := t.fields.map fun field => { field with type := field.type.mapRefs f } }

/-- `fqtn` is what a reference is bound to: the innermost of the namespaces around it has the name. -/
structure BoundTo (names : List String) (ref : TypeRef) (fqtn : List String) : Prop where
  mem : joinDots fqtn ∈ names
  innermost : ∃ ns, ns <+: ref.currentNamespace ∧ fqtn = ns ++ splitDots ref.input ∧
    ∀ ns', ns' <+: ref.currentNamespace → ns.length < ns'.length →
      joinDots (ns' ++ splitDots ref.input) ∉ names

/-- No namespace around the reference has the name. -/
def Unbound (names : List String) (ref : TypeRef) : Prop :=
  ∀ ns, ns <+: ref.currentNamespace → joinDots (ns ++ splitDots ref.input) ∉ names

theorem lookupType_spec (types : TypeMap) (input outer : List String) :
    match lookupType types input outer with
    | some fqtn => joinDots fqtn ∈ types.names ∧ ∃ ns, ns <+: outer.reverse ∧ fqtn = ns ++ input ∧
        ∀ ns', ns' <+: outer.reverse → ns.length < ns'.length →
          joinDots (ns' ++ input) ∉ types.names
    | none => ∀ ns, ns <+: outer.reverse → joinDots (ns ++ input) ∉ types.names := by
  induction outer with
  | nil =>
    rw [lookupType]
    by_cases h : joinDots input ∈ types.names
    · simp [TypeMap.has_iff, h]
    · simp [TypeMap.has_iff, h]
  | cons n outer ih =>
    rw [lookupType]
    by_cases h : joinDots ((n :: outer).reverse ++ input) ∈ types.names
    · rw [if_pos (TypeMap.has_iff.mpr h)]
      refine ⟨h, _, List.prefix_rfl, rfl, fun ns' hns' hlt => ?_⟩
      exact absurd hns'.length_le hlt.not_ge
    · rw [if_neg (mt TypeMap.has_iff.mp h)]
      -- a namespace around the reference is this one or one around it
      have hcases : ∀ ns, ns <+: (n :: outer).reverse →
          ns = (n :: outer).reverse ∨ ns <+: outer.reverse := by
        intro ns hns
        rw [List.reverse_cons] at hns ⊢
        exact List.prefix_concat_iff.mp hns
      cases hlookup : lookupType types input outer with
      | some fqtn =>
        rw [hlookup] at ih
        obtain ⟨hmem, ns, hns, heq, hinner⟩ := ih
        have hns' : ns <+: (n :: outer).reverse := by
          rw [List.reverse_cons]
          exact hns.trans (List.prefix_append _ _)
        refine ⟨hmem, ns, hns', heq, fun ns' hpre hlt => ?_⟩
        rcases hcases ns' hpre with rfl | hpre
        · exact h
        · exact hinner ns' hpre hlt
      | none =>
        rw [hlookup] at ih
        intro ns hns
        rcases hcases ns hns with rfl | hns
        · exact h
        · exact ih ns hns

theorem BoundTo.unique {names : List String} {ref : TypeRef} {fqtn fqtn' : List String}
    (h : BoundTo names ref fqtn) (h' : BoundTo names ref fqtn') : fqtn = fqtn' := by
  obtain ⟨hmem, ns, hns, rfl, hinner⟩ := h
  obtain ⟨hmem', ns', hns', rfl, hinner'⟩ := h'
  rcases lt_trichotomy ns.length ns'.length with hlt | heq | hlt
  · exact absurd hmem' (hinner ns' hns' hlt)
  · rw [(List.prefix_of_prefix_length_le hns hns' heq.le).eq_of_length heq]
  · exact absurd hmem (hinner' ns hns hlt)

theorem BoundTo.not_unbound {names : List String} {ref : TypeRef} {fqtn : List String}
    (h : BoundTo names ref fqtn) : ¬ Unbound names ref := by
  obtain ⟨hmem, ns, hns, rfl, -⟩ := h
  exact fun hun => hun ns hns hmem

/-- What a reference is bound to; the types give the names. -/
def bindRef (types : TypeMap) (ref : TypeRef) : TypeRef :=
  { ref with
    resolvedFqtn := (lookupType types (splitDots ref.input) ref.currentNamespace.reverse).getD [] }

theorem lookupType_congr {types types' : TypeMap} (h : ∀ key, key ∈ types.names ↔ key ∈ types'.names)
    (input outer : List String) : lookupType types input outer = lookupType types' input outer := by
  have hhas : ∀ key, types.has key = types'.has key := fun key => by
    rw [Bool.eq_iff_iff, TypeMap.has_iff, TypeMap.has_iff, h]
  induction outer with
  | nil => simp [lookupType, hhas]
  | cons n outer ih => simp [lookupType, hhas, ih]

theorem bindRef_congr {types types' : TypeMap}
    (h : ∀ key, key ∈ types.names ↔ key ∈ types'.names) : bindRef types = bindRef types' := by
  funext ref
  rw [bindRef, bindRef, lookupType_congr h]

theorem lookupType_bound (types : TypeMap) (ref : TypeRef) :
    (Unbound types.names ref ∧
      lookupType types (splitDots ref.input) ref.currentNamespace.reverse = none) ∨
    (BoundTo types.names ref (bindRef types ref).resolvedFqtn ∧
      lookupType types (splitDots ref.input) ref.currentNamespace.reverse =
        some (bindRef types ref).resolvedFqtn) := by
  have hspec := lookupType_spec types (splitDots ref.input) ref.currentNamespace.reverse
  rw [List.reverse_reverse] at hspec
  rw [bindRef]
  cases h : lookupType types (splitDots ref.input) ref.currentNamespace.reverse with
  | none =>
    rw [h] at hspec
    exact .inl ⟨hspec, rfl⟩
  | some fqtn =>
    rw [h] at hspec
    exact .inr ⟨⟨hspec.1, hspec.2⟩, rfl⟩

/-! ### Marks -/

inductive Mark where
  | table (key : String)
  | union (key : String)
  deriving DecidableEq, Repr

def markType (marks : List Mark) (key : String) : SchemaType → SchemaType :=
  .onTable fun t => { t with
    usedInTable := t.usedInTable || decide (.table key ∈ marks)
    usedInUnion := t.usedInUnion || decide (.union key ∈ marks) }

def markTypes (marks : List Mark) (types : TypeMap) : TypeMap :=
  types.map fun (key, t) => (key, markType marks key t)

def TypeRef.key (ref : TypeRef) : String := joinDots ref.resolvedFqtn

/-- The marks a type sets, when its references are bound. -/
def SchemaType.marks (t : SchemaType) : List Mark :=
  t.tableRefs.map (fun ref => .table ref.key) ++ t.unionRefs.map fun ref => .union ref.key

theorem markType_nil (key : String) (t : SchemaType) : markType [] key t = t := by
  cases t <;> simp [markType, SchemaType.onTable]

@[simp] theorem markTypes_nil (types : TypeMap) : markTypes [] types = types := by
  simp [markTypes, markType_nil]

@[simp] theorem names_markTypes (marks : List Mark) (types : TypeMap) :
    (markTypes marks types).names = types.names := by
  simp [markTypes, TypeMap.names]

/-- A change of one type passes the marks when it does so at that type, and the new marks are on
it alone. -/
theorem update_markTypes {marks marks' : List Mark} {key : String} {f g : SchemaType → SchemaType}
    (hat : ∀ t, f (markType marks key t) = markType marks' key (g t))
    (hoff : ∀ k, k ≠ key → markType marks k = markType marks' k) (types : TypeMap) :
    (markTypes marks types).update key f = markTypes marks' (types.update key g) := by
  simp only [markTypes, TypeMap.update, List.map_map]
  refine List.map_congr_left fun (k, t) _ => ?_
  by_cases hk : k = key
  · subst hk
    simp [hat]
  · simp [hk, hoff k hk]

theorem update_id (types : TypeMap) (key : String) : types.update key id = types := by
  simp [TypeMap.update]

theorem update_table (marks : List Mark) (types : TypeMap) (key : String) :
    (markTypes marks types).update key (.onTable fun t => { t with usedInTable := true }) =
      markTypes (marks ++ [.table key]) types := by
  rw [update_markTypes (g := id) (fun t => ?_) (fun k hk => ?_), update_id]
  · cases t <;> simp [markType, SchemaType.onTable]
  · simp [markType, hk]

theorem update_union (marks : List Mark) (types : TypeMap) (key : String) :
    (markTypes marks types).update key (.onTable fun t => { t with usedInUnion := true }) =
      markTypes (marks ++ [.union key]) types := by
  rw [update_markTypes (g := id) (fun t => ?_) (fun k hk => ?_), update_id]
  · cases t <;> simp [markType, SchemaType.onTable]
  · simp [markType, hk]

theorem update_of_notMem {types : TypeMap} {key : String} (h : key ∉ types.names)
    (f : SchemaType → SchemaType) : types.update key f = types := by
  rw [TypeMap.update]
  refine (List.map_congr_left fun (k, t) hmem => ?_).trans (List.map_id _)
  have hne : k ≠ key := by
    rintro rfl
    exact h (List.mem_map_of_mem hmem)
  simp [hne]

theorem update_middle {pre post : TypeMap} {key : String} (hpre : key ∉ pre.names)
    (hpost : key ∉ post.names) (t : SchemaType) (f : SchemaType → SchemaType) :
    (pre ++ (key, t) :: post).update key f = pre ++ (key, f t) :: post := by
  have hsplit : (pre ++ (key, t) :: post).update key f =
      pre.update key f ++ (key, f t) :: post.update key f := by
    simp [TypeMap.update]
  rw [hsplit, update_of_notMem hpre, update_of_notMem hpost]

/-! ### Running the resolver -/

def ResolverContext.withTypes (ctx : ResolverContext) (types : TypeMap) : ResolverContext :=
  { ctx with schema := { ctx.schema with types := types } }

@[simp] theorem withTypes_types (ctx : ResolverContext) (types : TypeMap) :
    (ctx.withTypes types).schema.types = types := rfl

@[simp] theorem withTypes_withTypes (ctx : ResolverContext) (types types' : TypeMap) :
    (ctx.withTypes types).withTypes types' = ctx.withTypes types' := rfl

theorem withTypes_self (ctx : ResolverContext) : ctx.withTypes ctx.schema.types = ctx := rfl

/-- References are bound, or one of them is unknown. -/
inductive Binds (names : List String) (ctx : ResolverContext) (refs : List TypeRef) {α : Type} (a : α)
    (post : ResolverContext) (r : EStateM.Result ResolveError ResolverContext α) : Prop
  | ok : (∀ ref ∈ refs, ¬ Unbound names ref) → r = .ok a post → Binds names ctx refs a post r
  | error (ref : TypeRef) (ctx' : ResolverContext) : ref ∈ refs → Unbound names ref →
      ctx'.reads = ctx.reads → r = .error (.unknownType ref.input ctx.currentFile) ctx' →
      Binds names ctx refs a post r

theorem resolveType_run {types : TypeMap} {ctx : ResolverContext}
    (hnames : ctx.schema.types.names = types.names) (ref : TypeRef) :
    Binds types.names ctx [ref] (bindRef types ref) ctx (resolveType ref ctx) := by
  have hlookup := @lookupType_congr ctx.schema.types types (fun key => by rw [hnames])
    (splitDots ref.input) ref.currentNamespace.reverse
  rw [resolveType]
  simp only [run_bind, run_get, hlookup]
  rcases lookupType_bound types ref with ⟨hunbound, hnone⟩ | ⟨hbound, hsome⟩
  · rw [hnone]
    exact .error ref ctx List.mem_cons_self hunbound rfl rfl
  · rw [hsome]
    refine .ok ?_ rfl
    intro ref' href'
    obtain rfl := List.mem_singleton.mp href'
    exact hbound.not_unbound

theorem Binds.bind {names : List String} {ctx post post' : ResolverContext} {refs refs' : List TypeRef}
    {α β : Type} {a : α} {b : β} {x : ResolverM α} {f : α → ResolverM β}
    (hx : Binds names ctx refs a post (x ctx)) (hf : Binds names post refs' b post' (f a post))
    (hreads : post.reads = ctx.reads) (hfile : post.currentFile = ctx.currentFile) :
    Binds names ctx (refs ++ refs') b post' ((x >>= f) ctx) := by
  rw [run_bind]
  cases hx with
  | error ref ctx' hmem hunbound hctx hrun =>
    rw [hrun]
    exact .error ref ctx' (List.mem_append_left _ hmem) hunbound hctx rfl
  | ok hbound hrun =>
    rw [hrun]
    cases hf with
    | error ref ctx' hmem hunbound hctx hrun' =>
      refine .error ref ctx' (List.mem_append_right _ hmem) hunbound (hctx.trans hreads) ?_
      rw [← hfile]
      exact hrun'
    | ok hbound' hrun' => exact .ok (List.forall_mem_append.mpr ⟨hbound, hbound'⟩) hrun'

theorem Binds.pure (names : List String) (ctx : ResolverContext) {α : Type} (a : α) :
    Binds names ctx [] a ctx ((Pure.pure a : ResolverM α) ctx) := .ok (by simp) rfl

/-- An action that binds references and marks what they are bound to. -/
def BindsAll (types : TypeMap) {α : Type} (x : ResolverM α) (refs : List TypeRef) (a : α)
    (marks : List Mark) : Prop :=
  ∀ (ctx : ResolverContext) (set : List Mark) (T : TypeMap), T.names = types.names →
    ctx.schema.types = markTypes set T →
    Binds types.names ctx refs a (ctx.withTypes (markTypes (set ++ marks) T)) (x ctx)

theorem BindsAll.bind {types : TypeMap} {α β : Type} {x : ResolverM α} {f : α → ResolverM β}
    {refs refs' : List TypeRef} {a : α} {b : β} {marks marks' : List Mark}
    (hx : BindsAll types x refs a marks) (hf : BindsAll types (f a) refs' b marks') :
    BindsAll types (x >>= f) (refs ++ refs') b (marks ++ marks') := by
  intro ctx set T hT hctx
  have hsecond := hf (ctx.withTypes (markTypes (set ++ marks) T)) (set ++ marks) T hT rfl
  rw [withTypes_withTypes, List.append_assoc] at hsecond
  exact (hx ctx set T hT hctx).bind hsecond rfl rfl

theorem BindsAll.pure (types : TypeMap) {α : Type} (a : α) :
    BindsAll types (Pure.pure a : ResolverM α) [] a [] := by
  intro ctx set T hT hctx
  rw [List.append_nil, ← hctx, withTypes_self]
  exact .pure _ ctx a

theorem BindsAll.map {types : TypeMap} {α β : Type} {x : ResolverM α} {refs : List TypeRef} {a : α}
    {marks : List Mark} (hx : BindsAll types x refs a marks) (g : α → β) :
    BindsAll types (x >>= fun a => Pure.pure (g a)) refs (g a) marks := by
  have hbind : BindsAll types (x >>= fun a => Pure.pure (g a)) (refs ++ []) (g a) (marks ++ []) :=
    hx.bind (.pure types (g a))
  rwa [List.append_nil, List.append_nil] at hbind

/-- A loop that binds the references of its elements. -/
theorem BindsAll.mapM {types : TypeMap} {α β : Type} {f : α → ResolverM β} {refs : α → List TypeRef}
    {g : α → β} {marks : α → List Mark} (h : ∀ a, BindsAll types (f a) (refs a) (g a) (marks a))
    (l : List α) : BindsAll types (l.mapM f) (l.flatMap refs) (l.map g) (l.flatMap marks) := by
  induction l with
  | nil => exact .pure types []
  | cons a l ih =>
    rw [List.mapM_cons, List.flatMap_cons, List.flatMap_cons, List.map_cons]
    exact (h a).bind (ih.map (g a :: ·))

theorem resolveRef_binds (types : TypeMap) (ref : TypeRef) {β : Type} (g : TypeRef → β)
    (mark : String → Mark) (fn : TableType → TableType) (hmark : ∀ (set : List Mark) (T : TypeMap) (key : String),
      (markTypes set T).update key (.onTable fn) = markTypes (set ++ [mark key]) T) :
    BindsAll types (do
      let ref ← resolveType ref
      markResolvedType ref fn
      return g ref) [ref] (g (bindRef types ref)) [mark (bindRef types ref).key] := by
  intro ctx set T hT hctx
  have hnames : ctx.schema.types.names = types.names := by rw [hctx, names_markTypes, hT]
  rw [← List.append_nil [ref]]
  refine (resolveType_run hnames ref).bind ?_ rfl rfl
  refine .ok (by simp) ?_
  rw [run_bind, markResolvedType, run_modify, hctx]
  simp only [run_pure, ResolverContext.withTypes, ← hmark]
  rfl

theorem resolveFieldType_binds (types : TypeMap) (ft : FieldType) :
    BindsAll types (resolveFieldType ft) ft.refs (ft.mapRefs (bindRef types))
      ((ft.mapRefs (bindRef types)).refs.map fun ref => .table ref.key) := by
  induction ft with
  | basic type => exact .pure types _
  | vector type ih => exact ih.map FieldType.vector
  | custom ref => exact resolveRef_binds types ref FieldType.custom .table _ update_table

theorem mapM_unionValues_binds (types : TypeMap) (values : List UnionValue) :
    BindsAll types (values.mapM fun uv => do
        let ref ← resolveType uv.typeRef
        markResolvedType ref fun resolved => { resolved with usedInUnion := true }
        return { uv with typeRef := ref })
      (values.map (·.typeRef)) (values.map fun uv => { uv with typeRef := bindRef types uv.typeRef })
      (values.map fun uv => .union (bindRef types uv.typeRef).key) := by
  have hrefs : values.map (·.typeRef) = values.flatMap fun uv => [uv.typeRef] :=
    List.map_eq_flatMap
  have hmarks : values.map (fun uv => Mark.union (bindRef types uv.typeRef).key) =
      values.flatMap fun uv => [.union (bindRef types uv.typeRef).key] := List.map_eq_flatMap
  have hvalue : ∀ uv : UnionValue, BindsAll types (do
        let ref ← resolveType uv.typeRef
        markResolvedType ref fun resolved => { resolved with usedInUnion := true }
        return { uv with typeRef := ref })
      [uv.typeRef] { uv with typeRef := bindRef types uv.typeRef }
      [.union (bindRef types uv.typeRef).key] := by
    intro uv
    exact resolveRef_binds types uv.typeRef (fun ref => ({ uv with typeRef := ref } : UnionValue))
      .union (fun resolved => { resolved with usedInUnion := true }) update_union
  rw [hrefs, hmarks]
  exact BindsAll.mapM hvalue values

theorem mapM_fields_binds (types : TypeMap) (fields : List TableField) :
    BindsAll types (fields.mapM fun f => return { f with type := ← resolveFieldType f.type })
      (fields.flatMap fun f => f.type.refs)
      (fields.map fun f => { f with type := f.type.mapRefs (bindRef types) })
      (fields.flatMap fun f => (f.type.mapRefs (bindRef types)).refs.map fun ref => .table ref.key) :=
  BindsAll.mapM (fun f : TableField => (resolveFieldType_binds types f.type).map
    fun type => ({ f with type := type } : TableField)) fields

theorem markTypes_update_fields (set : List Mark) (types : TypeMap) (key : String)
    (fields : List TableField) :
    (markTypes set types).update key (.onTable fun t => { t with fields := fields }) =
      markTypes set (types.update key (.onTable fun t => { t with fields := fields })) :=
  update_markTypes (fun t => by cases t <;> rfl) (fun _ _ => rfl) types

theorem markTypes_update_union (set : List Mark) (types : TypeMap) (key : String) (base : TypeBase)
    (values : List UnionValue) : (markTypes set types).update key (fun _ => .union base values) =
      markTypes set (types.update key fun _ => .union base values) := by
  refine update_markTypes (fun t => ?_) (fun k hk => rfl) types
  rfl

/-- The references of a type are bound, and it is changed where it is stored. -/
theorem resolveSchemaType_run {types pre post : TypeMap} {key : String} {t : SchemaType}
    {ctx : ResolverContext} {set : List Mark}
    (hnames : (pre ++ (key, t) :: post).names = types.names)
    (hpre : key ∉ pre.names) (hpost : key ∉ post.names)
    (hctx : ctx.schema.types = markTypes set (pre ++ (key, t) :: post)) :
    Binds types.names ctx t.refs ()
      (ctx.withTypes (markTypes (set ++ (t.mapRefs (bindRef types)).marks)
        (pre ++ (key, t.mapRefs (bindRef types)) :: post))) (resolveSchemaType key t ctx) := by
  cases t with
  | enum base values =>
    refine .ok (by simp [SchemaType.refs, SchemaType.tableRefs, SchemaType.unionRefs]) ?_
    have hmarks : (SchemaType.mapRefs (bindRef types) (.enum base values)).marks = [] := rfl
    rw [hmarks, List.append_nil]
    exact congrArg (EStateM.Result.ok ()) (by rw [SchemaType.mapRefs, ← hctx, withTypes_self])
  | union base values =>
    have hvalues := mapM_unionValues_binds types values ctx set _ hnames hctx
    have hrefs : (SchemaType.union base values).refs = values.map (·.typeRef) ++ [] := by
      simp [SchemaType.refs, SchemaType.tableRefs, SchemaType.unionRefs]
    rw [hrefs, resolveSchemaType]
    refine hvalues.bind (.ok (by simp) ?_) rfl rfl
    rw [run_modify]
    simp only [withTypes_types, markTypes_update_union, update_middle hpre hpost]
    simp [SchemaType.mapRefs, SchemaType.marks, SchemaType.tableRefs, SchemaType.unionRefs,
      ResolverContext.withTypes, Function.comp_def]
  | table t =>
    have hfields := mapM_fields_binds types t.fields ctx set _ hnames hctx
    have hrefs : (SchemaType.table t).refs = (t.fields.flatMap fun f => f.type.refs) ++ [] := by
      simp [SchemaType.refs, SchemaType.tableRefs, SchemaType.unionRefs]
    rw [hrefs, resolveSchemaType]
    refine hfields.bind (.ok (by simp) ?_) rfl rfl
    rw [run_modify]
    simp only [withTypes_types, markTypes_update_fields, update_middle hpre hpost]
    simp [SchemaType.mapRefs, SchemaType.marks, SchemaType.tableRefs, SchemaType.unionRefs,
      SchemaType.onTable, ResolverContext.withTypes, List.map_flatMap, List.flatMap_map]

/-- A type with its references bound. -/
def boundType (types : TypeMap) (entry : String × SchemaType) : String × SchemaType :=
  (entry.1, entry.2.mapRefs (bindRef types))

@[simp] theorem names_map_boundType (types T : TypeMap) :
    TypeMap.names (T.map (boundType types)) = T.names := by
  simp [TypeMap.names, boundType]

theorem forM_resolveSchemaType_run {types pre post : TypeMap} {ctx : ResolverContext}
    {set : List Mark} (hsplit : types = pre ++ post) (hnodup : types.names.Nodup)
    (hctx : ctx.schema.types = markTypes set (pre.map (boundType types) ++ post)) :
    Binds types.names ctx (post.flatMap fun entry => entry.2.refs) ()
      (ctx.withTypes (markTypes
        (set ++ post.flatMap fun entry => (boundType types entry).2.marks)
        (types.map (boundType types))))
      ((forM post fun (key, t) => resolveSchemaType key t : ResolverM Unit) ctx) := by
  induction post generalizing pre ctx set with
  | nil =>
    rw [List.append_nil] at hsplit hctx
    rw [← hsplit] at hctx
    refine .ok (by simp) ?_
    simp [← hctx, withTypes_self]
  | cons entry post ih =>
    obtain ⟨key, t⟩ := entry
    have hnodup' := hnodup
    rw [hsplit, TypeMap.names_append, TypeMap.names_cons, List.nodup_middle, List.nodup_cons,
      List.mem_append, not_or] at hnodup'
    obtain ⟨⟨hpre, hpost⟩, -⟩ := hnodup'
    rw [List.forM_cons, List.flatMap_cons, List.flatMap_cons, ← List.append_assoc set]
    have hfirst := @resolveSchemaType_run types (pre.map (boundType types)) post key t ctx set
      (by simp [hsplit]) (by simpa using hpre) hpost hctx
    refine hfirst.bind ?_ rfl rfl
    exact @ih (pre ++ [(key, t)]) _ _ (by simp [hsplit])
      (by simp [boundType])

/-- The schema when all references are bound. -/
def SchemaTypes.bound (schema : SchemaTypes) : SchemaTypes :=
  let types := schema.types.map (boundType schema.types)
  let rootType := schema.rootType.map (bindRef schema.types)
  { types := markTypes ((types.flatMap fun entry => entry.2.marks) ++
      rootType.toList.map fun ref => .table ref.key) types
    rootType := rootType }

/-- The references of a schema. -/
def SchemaTypes.refs (schema : SchemaTypes) : List TypeRef :=
  (schema.types.flatMap fun entry => entry.2.refs) ++ schema.rootType.toList

theorem resolveTypes_run (ctx : ResolverContext) (hnodup : ctx.schema.types.names.Nodup) :
    Binds ctx.schema.types.names ctx ctx.schema.refs () { ctx with schema := ctx.schema.bound }
      (resolveTypes ctx) := by
  have htypes := @forM_resolveSchemaType_run ctx.schema.types [] ctx.schema.types ctx [] rfl hnodup
    (by simp)
  rw [resolveTypes, run_bind, run_get]
  refine htypes.bind ?_ rfl rfl
  rw [run_bind, run_get]
  cases hroot : ctx.schema.rootType with
  | none =>
    refine .ok (by simp) ?_
    simp [SchemaTypes.bound, ResolverContext.withTypes, hroot, List.flatMap_map]
  | some rootType =>
    have hnames : (ctx.withTypes (markTypes ([] ++ ctx.schema.types.flatMap fun entry =>
        (boundType ctx.schema.types entry).2.marks)
        (ctx.schema.types.map (boundType ctx.schema.types)))).schema.types.names =
          ctx.schema.types.names := by
      simp
    have hrun := resolveType_run hnames rootType
    have hwith : ∀ T, (ctx.withTypes T).schema.rootType = some rootType := fun _ => hroot
    rw [Option.toList_some, ← List.append_nil [rootType]]
    simp only [hwith]
    refine hrun.bind (.ok (fun _ h => absurd h List.not_mem_nil) ?_) rfl rfl
    simp only [run_bind, run_modify, markResolvedType, ResolverContext.withTypes, update_table]
    simp [SchemaTypes.bound, hroot, List.flatMap_map, TypeRef.key]

end Motis.Protocol
