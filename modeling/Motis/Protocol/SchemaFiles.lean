import Motis.Protocol.Resolver

/-! The types of all files that can be reached from the root file.

    `resolveFile` does what the events of a depth-first traversal of the includes do one after the
    other: to enter a file is to read it, to leave it is to register its types. -/

namespace Motis.Protocol
open Traversal

@[simp] theorem run_bind {α β : Type} (x : ResolverM α) (f : α → ResolverM β)
    (ctx : ResolverContext) : (x >>= f) ctx = match x ctx with
      | .ok a ctx => f a ctx
      | .error e ctx => .error e ctx := by
  cases h : x ctx <;> simp [bind, EStateM.bind, h]

@[simp] theorem run_pure {α : Type} (a : α) (ctx : ResolverContext) :
    (pure a : ResolverM α) ctx = .ok a ctx := rfl

@[simp] theorem run_modify (f : ResolverContext → ResolverContext) (ctx : ResolverContext) :
    (modify f : ResolverM Unit) ctx = .ok () (f ctx) := rfl

@[simp] theorem run_get (ctx : ResolverContext) :
    (get : ResolverM ResolverContext) ctx = .ok ctx ctx := rfl

@[simp] theorem run_throw {α : Type} (e : ResolveError) (ctx : ResolverContext) :
    (throw e : ResolverM α) ctx = .error e ctx := rfl

namespace TypeMap

def names (types : TypeMap) : List String := types.map (·.1)

@[simp] theorem names_append (a b : TypeMap) : names (a ++ b) = names a ++ names b :=
  List.map_append

@[simp] theorem names_cons (key : String) (t : SchemaType) (types : TypeMap) :
    names ((key, t) :: types) = key :: names types := rfl

@[simp] theorem names_nil : names [] = [] := rfl

theorem has_iff {types : TypeMap} {key : String} : types.has key = true ↔ key ∈ types.names := by
  simp [has, names]

theorem set_of_notMem {types : TypeMap} {key : String} (h : key ∉ types.names) (t : SchemaType) :
    types.set key t = types ++ [(key, t)] := by
  rw [set, if_neg (by rwa [has_iff])]

end TypeMap

/-! ### What a file declares -/

/-- A declaration of a type, under its full name. -/
def declaration (fbsFile relativeFbsFile : String) (ns : Namespace) :
    AstTopLevel → Option (String × SchemaType)
  | .enum name _ metadata values =>
    some (joinDots (namespaced ns name),
      .enum ⟨name, ns, fbsFile, relativeFbsFile, metadata⟩ values)
  | .union name metadata values =>
    some (joinDots (namespaced ns name),
      unionType ⟨name, ns, fbsFile, relativeFbsFile, metadata⟩ values)
  | .table isStruct name metadata fields =>
    some (joinDots (namespaced ns name),
      tableType ⟨name, ns, fbsFile, relativeFbsFile, metadata⟩ isStruct fields)
  | _ => none

def nextNamespace (ns : Namespace) : AstTopLevel → Namespace
  | .namespace value => splitDots value
  | _ => ns

def declaredFrom (fbsFile relativeFbsFile : String) : Namespace → List AstTopLevel → TypeMap
  | _, [] => []
  | ns, elm :: rest => (declaration fbsFile relativeFbsFile ns elm).toList ++
      declaredFrom fbsFile relativeFbsFile (nextNamespace ns elm) rest

def rootTypeOf (ns : Namespace) : AstTopLevel → Option TypeRef
  | .rootType type => some (extractType ns type)
  | _ => none

def rootTypesFrom : Namespace → List AstTopLevel → List TypeRef
  | _, [] => []
  | ns, elm :: rest => (rootTypeOf ns elm).toList ++ rootTypesFrom (nextNamespace ns elm) rest

namespace FileSystem
variable (fs : FileSystem)

def ast (file : String) : List AstTopLevel := (fs.parse file).getD []

/-- The types a file declares. -/
def declared (file : String) : TypeMap := declaredFrom file (fs.relative file) [] (fs.ast file)

/-- The root types a file declares. -/
def rootTypes (file : String) : List TypeRef := rootTypesFrom [] (fs.ast file)

def succ (file : String) : List String := fs.includes (fs.ast file)

/-- The files that can be reached from the root file are there and can be parsed. -/
def Readable (rootFile : String) : Prop :=
  ∀ file, Reachable fs.succ rootFile file →
    fs.existsSync file = true ∧ fs.parse file = some (fs.ast file)

end FileSystem

/-- The schema when new types and root types were registered; the last root type counts. -/
def SchemaTypes.register (schema : SchemaTypes) (new : TypeMap) (roots : List TypeRef) :
    SchemaTypes where
  types := schema.types ++ new
  rootType := roots.getLast?.or schema.rootType

@[simp] theorem register_nil (schema : SchemaTypes) : schema.register [] [] = schema := by
  simp [SchemaTypes.register]

theorem register_register (schema : SchemaTypes) (new new' : TypeMap) (roots roots' : List TypeRef) :
    (schema.register new roots).register new' roots' =
      schema.register (new ++ new') (roots ++ roots') := by
  simp [SchemaTypes.register, List.getLast?_append, Option.or_assoc]

theorem setNewType_run (ns : Namespace) (name : String) (t : SchemaType) (ctx : ResolverContext) :
    setNewType ns name t ctx =
      if joinDots (namespaced ns name) ∈ ctx.schema.types.names then
        .error (.typeAlreadyDefined (joinDots (namespaced ns name))) ctx
      else .ok () { ctx with
        schema := ctx.schema.register [(joinDots (namespaced ns name), t)] [] } := by
  rw [setNewType, verifyNewType]
  simp only [run_bind, run_get, ← TypeMap.has_iff]
  split_ifs with h
  · rfl
  · rw [TypeMap.has_iff] at h
    simp [SchemaTypes.register, TypeMap.set_of_notMem h]

/-- A declaration is registered, unless its name is taken. -/
theorem extractDeclaration_run (fbsFile relativeFbsFile : String) (ns : Namespace)
    (elm : AstTopLevel) (ctx : ResolverContext) :
    extractDeclaration fbsFile relativeFbsFile ns elm ctx =
      match declaration fbsFile relativeFbsFile ns elm with
      | none => .ok (nextNamespace ns elm)
          { ctx with schema := ctx.schema.register [] (rootTypeOf ns elm).toList }
      | some (key, t) =>
        if key ∈ ctx.schema.types.names then .error (.typeAlreadyDefined key) ctx
        else .ok (nextNamespace ns elm) { ctx with schema := ctx.schema.register [(key, t)] [] } := by
  cases elm with
  | «namespace» value => simp [extractDeclaration, declaration, nextNamespace, rootTypeOf]
  | enum name baseType metadata values =>
    simp only [extractDeclaration, declaration, nextNamespace, run_bind, setNewType_run]
    split_ifs <;> rfl
  | union name metadata values =>
    simp only [extractDeclaration, declaration, nextNamespace, run_bind, setNewType_run]
    split_ifs <;> rfl
  | table isStruct name metadata fields =>
    simp only [extractDeclaration, declaration, nextNamespace, run_bind, setNewType_run]
    split_ifs <;> rfl
  | «attribute» id => simp [extractDeclaration, declaration, nextNamespace, rootTypeOf]
  | rootType type =>
    simp only [extractDeclaration, declaration, run_bind, run_modify]
    simp [nextNamespace, rootTypeOf, SchemaTypes.register]
  | «include» value => simp [extractDeclaration, declaration, nextNamespace, rootTypeOf]

/-- A name that is there twice. -/
def Twice (key : String) (types : TypeMap) : Prop := 2 ≤ types.names.count key

theorem Twice.not_nodup {key : String} {types : TypeMap} (h : Twice key types) :
    ¬ types.names.Nodup := by
  intro hnodup
  have hle := List.nodup_iff_count_le_one.mp hnodup key
  rw [Twice] at h
  omega

theorem Twice.append {key : String} {types : TypeMap} (h : Twice key types) (more : TypeMap) :
    Twice key (types ++ more) := by
  rw [Twice, TypeMap.names_append, List.count_append] at *
  omega

theorem twice_of_mem {key : String} {types : TypeMap} (h : key ∈ types.names) (t : SchemaType)
    (rest : TypeMap) : Twice key (types ++ (key, t) :: rest) := by
  have hpos := List.count_pos_iff.mpr h
  rw [Twice, TypeMap.names_append, TypeMap.names_cons, List.count_append, List.count_cons_self]
  omega

/-- What registering types does to the schema: an error if a name is there twice. -/
inductive Registers (ctx : ResolverContext) (new : TypeMap) (roots : List TypeRef) {α : Type}
    (r : EStateM.Result ResolveError ResolverContext α) : Prop
  | ok (a : α) : (ctx.schema.types ++ new).names.Nodup →
      r = .ok a { ctx with schema := ctx.schema.register new roots } → Registers ctx new roots r
  | error (key : String) (schema : SchemaTypes) : Twice key (ctx.schema.types ++ new) →
      r = .error (.typeAlreadyDefined key) { ctx with schema := schema } → Registers ctx new roots r

theorem foldlM_extractDeclaration (fbsFile relativeFbsFile : String) (ns : Namespace)
    (ast : List AstTopLevel) (ctx : ResolverContext) (hctx : ctx.schema.types.names.Nodup) :
    Registers ctx (declaredFrom fbsFile relativeFbsFile ns ast) (rootTypesFrom ns ast)
      (ast.foldlM (extractDeclaration fbsFile relativeFbsFile) ns ctx) := by
  induction ast generalizing ns ctx with
  | nil => exact .ok ns (by simpa [declaredFrom]) (by simp [declaredFrom, rootTypesFrom])
  | cons elm rest ih =>
    rw [List.foldlM_cons, run_bind, extractDeclaration_run, declaredFrom, rootTypesFrom]
    cases hdecl : declaration fbsFile relativeFbsFile ns elm with
    | none =>
      simp only [Option.toList_none, List.nil_append]
      rcases ih (nextNamespace ns elm)
        { ctx with schema := ctx.schema.register [] (rootTypeOf ns elm).toList }
        (by simpa [SchemaTypes.register]) with ⟨ns', hnodup, hrun⟩ | ⟨key, schema, htwice, hrun⟩
      · refine .ok ns' (by simpa [SchemaTypes.register] using hnodup) (hrun.trans ?_)
        rw [register_register, List.nil_append]
      · exact .error key schema (by simpa [SchemaTypes.register] using htwice) hrun
    | some decl =>
      obtain ⟨key, t⟩ := decl
      have hroot : rootTypeOf ns elm = none := by
        cases elm <;> simp [declaration, rootTypeOf] at hdecl ⊢
      simp only [Option.toList_some, hroot, Option.toList_none, List.nil_append,
        List.singleton_append]
      split_ifs with hmem
      · exact .error key ctx.schema (twice_of_mem hmem t _) rfl
      · have hnodup : (ctx.schema.register [(key, t)] []).types.names.Nodup := by
          simp [SchemaTypes.register, List.nodup_append, hctx]
          rintro a ha rfl
          exact hmem ha
        rcases ih (nextNamespace ns elm)
          { ctx with schema := ctx.schema.register [(key, t)] [] } hnodup with
          ⟨ns', hnodup, hrun⟩ | ⟨key', schema, htwice, hrun⟩
        · refine .ok ns' (by simpa [SchemaTypes.register] using hnodup) (hrun.trans ?_)
          rw [register_register, List.singleton_append, List.nil_append]
        · exact .error key' schema (by simpa [SchemaTypes.register] using htwice) hrun

theorem extractTypes_run (fs : FileSystem) (file : String) (ctx : ResolverContext)
    (hctx : ctx.schema.types.names.Nodup) :
    Registers { ctx with currentFile := file } (fs.declared file) (fs.rootTypes file)
      (extractTypes fs file (fs.ast file) ctx) := by
  rcases foldlM_extractDeclaration file (fs.relative file) [] (fs.ast file)
    { ctx with currentFile := file } hctx with ⟨ns, hnodup, hrun⟩ | ⟨key, schema, htwice, hrun⟩
  · refine .ok () hnodup ?_
    rw [extractTypes, run_bind, run_modify]
    simp only [run_bind, hrun, run_pure]
    rfl
  · refine .error key schema htwice ?_
    rw [extractTypes, run_bind, run_modify]
    simp only [run_bind, hrun]

/-! ### Running the events of a traversal -/

section Events
variable (fs : FileSystem)

def runEvent : Event String → ResolverM Unit
  | .enter file => modify fun ctx => { ctx with
      currentFile := file
      files := ctx.files ++ [file]
      reads := ctx.reads ++ [file] }
  | .leave file => extractTypes fs file (fs.ast file)

/-- What the events do to the state. -/
inductive Ran (ctx : ResolverContext) (events : List (Event String))
    (r : EStateM.Result ResolveError ResolverContext Unit) : Prop
  | ok (currentFile : String) :
      (ctx.schema.types ++ (left events).flatMap fs.declared).names.Nodup →
      r = .ok ()
        { schema := ctx.schema.register ((left events).flatMap fs.declared)
            ((left events).flatMap fs.rootTypes)
          files := ctx.files ++ entered events
          currentFile := currentFile
          reads := ctx.reads ++ entered events } → Ran ctx events r
  | error (key : String) (ctx' : ResolverContext) :
      Twice key (ctx.schema.types ++ (left events).flatMap fs.declared) →
      ctx'.reads <+: ctx.reads ++ entered events →
      r = .error (.typeAlreadyDefined key) ctx' → Ran ctx events r

variable {fs}

theorem runEvents (events : List (Event String)) (ctx : ResolverContext)
    (hctx : ctx.schema.types.names.Nodup) :
    Ran fs ctx events (forM events (runEvent fs) ctx) := by
  induction events generalizing ctx with
  | nil => exact .ok ctx.currentFile (by simpa) (by simp)
  | cons event rest ih =>
    rw [List.forM_cons, run_bind]
    cases event with
    | enter file =>
      rw [runEvent, run_modify]
      rcases ih { ctx with
          currentFile := file
          files := ctx.files ++ [file]
          reads := ctx.reads ++ [file] } hctx with
        ⟨currentFile, hnodup, hrun⟩ | ⟨key, ctx', htwice, hreads, hrun⟩
      · exact .ok currentFile hnodup (hrun.trans (by simp))
      · exact .error key ctx' htwice (by simpa using hreads) hrun
    | leave file =>
      rw [runEvent]
      rcases extractTypes_run fs file ctx hctx with ⟨_, hnodup, hrun⟩ | ⟨key, schema, htwice, hrun⟩
      · rw [hrun]
        rcases ih { ctx with
            schema := ctx.schema.register (fs.declared file) (fs.rootTypes file)
            currentFile := file } (by simpa [SchemaTypes.register] using hnodup) with
          ⟨currentFile, hnodup', hrun'⟩ | ⟨key, ctx', htwice, hreads, hrun'⟩
        · refine .ok currentFile (by simpa [SchemaTypes.register] using hnodup') (hrun'.trans ?_)
          rw [register_register]
          simp
        · exact .error key ctx' (by simpa [SchemaTypes.register] using htwice) hreads hrun'
      · rw [hrun]
        refine .error key { ctx with currentFile := file, schema := schema } ?_
          (List.prefix_append _ _) rfl
        have happend := htwice.append ((left rest).flatMap fs.declared)
        simpa using happend

theorem Ran.files {ctx ctx' : ResolverContext} {events : List (Event String)}
    (h : Ran fs ctx events (.ok () ctx')) :
    ctx'.schema.types.names.Nodup ∧ ctx'.files = ctx.files ++ entered events := by
  cases h with
  | ok currentFile hnodup hrun =>
    cases hrun
    exact ⟨hnodup, rfl⟩
  | error key ctx' htwice hreads hrun => cases hrun

/-- The loop over the includes of a file. -/
theorem forM_resolveFile {fuel : ℕ} {visited l : List String} {events events' : List (Event String)}
    {ctx : ResolverContext}
    (ih : ∀ {file : String} {events : List (Event String)} {ctx : ResolverContext},
      fs.Readable file → ctx.schema.types.names.Nodup →
      visit fs.succ fuel ctx.files file = some events →
      resolveFile fs fuel file ctx = forM events (runEvent fs) ctx)
    (hread : ∀ file ∈ l, fs.Readable file) (hctx : ctx.schema.types.names.Nodup)
    (hfiles : ctx.files = visited ++ entered events)
    (hvisit : l.foldlM (fun events y => do
      let more ← visit fs.succ fuel (visited ++ entered events) y
      return events ++ more) events = some events') :
    ∃ more, events' = events ++ more ∧
      forM l (resolveFile fs fuel) ctx = forM more (runEvent fs) ctx := by
  induction l generalizing events ctx with
  | nil =>
    obtain rfl := Option.some.inj hvisit
    exact ⟨[], by simp, rfl⟩
  | cons file l ihl =>
    rw [List.foldlM_cons] at hvisit
    obtain ⟨_, hstep, hrest⟩ := Option.bind_eq_some_iff.mp hvisit
    obtain ⟨first, hfirst, heq⟩ := Option.bind_eq_some_iff.mp hstep
    obtain rfl := Option.some.inj heq
    rw [← hfiles] at hfirst
    have hrun := ih (hread file List.mem_cons_self) hctx hfirst
    have hread' : ∀ file ∈ l, fs.Readable file := fun file hmem =>
      hread file (List.mem_cons_of_mem _ hmem)
    rw [List.forM_cons, run_bind, hrun]
    have hran := @runEvents fs first ctx hctx
    cases hres : forM first (runEvent fs) ctx with
    | ok _ ctx' =>
      rw [hres] at hran
      obtain ⟨hnodup, hfiles'⟩ := hran.files
      obtain ⟨more, rfl, hmore⟩ := ihl hread' hnodup (by simp [hfiles', hfiles]) hrest
      refine ⟨first ++ more, by simp, ?_⟩
      rw [List.forM_append, run_bind, hres]
      exact hmore
    | error e ctx' =>
      -- the rest is not run
      obtain ⟨more, hmore⟩ : ∃ more, events' = events ++ first ++ more := by
        refine foldlM_invariant (fun _ r => ∃ more, r = events ++ first ++ more) hrest
          ⟨[], by simp⟩ ?_
        rintro done y b b' ⟨more, rfl⟩ hy hstep
        obtain ⟨more', -, hstep⟩ := Option.bind_eq_some_iff.mp hstep
        obtain rfl := Option.some.inj hstep
        exact ⟨more ++ more', by simp⟩
      refine ⟨first ++ more, by simp [hmore], ?_⟩
      rw [List.forM_append, run_bind, hres]

/-- Resolving a file is running the events of its visit. -/
theorem resolveFile_run {fuel : ℕ} {file : String} {events : List (Event String)}
    {ctx : ResolverContext} (hread : fs.Readable file) (hctx : ctx.schema.types.names.Nodup)
    (hvisit : visit fs.succ fuel ctx.files file = some events) :
    resolveFile fs fuel file ctx = forM events (runEvent fs) ctx := by
  induction fuel generalizing file events ctx with
  | zero => cases hvisit
  | succ fuel ih =>
    rw [resolveFile]
    rw [visit] at hvisit
    split_ifs at hvisit with hmem
    · obtain rfl := Option.some.inj hvisit
      simp [hmem]
    · obtain ⟨events', hloop, heq⟩ := Option.bind_eq_some_iff.mp hvisit
      obtain rfl := Option.some.inj heq
      obtain ⟨hexists, hparse⟩ := hread file .refl
      have hread' : ∀ file' ∈ fs.succ file, fs.Readable file' := fun file' hfile' file'' hreach =>
        hread file'' (.head hfile' hreach)
      obtain ⟨more, rfl, hrun⟩ := @forM_resolveFile fs fuel ctx.files (fs.succ file) [.enter file]
        events' { ctx with
          currentFile := file
          files := ctx.files ++ [file]
          reads := ctx.reads ++ [file] } ih hread' hctx (by simp) hloop
      simp only [run_bind, run_get, List.contains_iff_mem, hmem, if_false, hexists, Bool.not_true,
        hparse, Bool.false_eq_true, run_modify, run_pure, List.forM_eq_forM, List.forM_append,
        List.forM_cons, List.forM_nil, runEvent]
      rw [FileSystem.succ] at hrun
      rw [hrun]
      cases forM more (runEvent fs) { ctx with
        currentFile := file
        files := ctx.files ++ [file]
        reads := ctx.reads ++ [file] } with
      | ok _ ctx' =>
        dsimp only
        cases extractTypes fs file (fs.ast file) ctx' <;> rfl
      | error e ctx' => rfl

end Events

end Motis.Protocol
