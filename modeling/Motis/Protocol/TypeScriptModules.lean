import Motis.Protocol.TypeScriptIncludes

/-! The modules of a schema: what is declared, used and imported in the module of a namespace. -/

namespace Motis.Protocol.TypeScript

/-! ### Paths of modules -/

theorem removeExtension_append (s : String) : removeExtension (s ++ ".ts") = s := by
  have hsuffix : ".ts".toList <:+ (s ++ ".ts").toList := by
    rw [String.toList_append]
    exact List.suffix_append _ _
  rw [removeExtension, if_pos hsuffix, String.toList_append, List.length_append]
  exact (congrArg String.ofList (List.take_left' rfl)).trans String.ofList_toList

theorem ne_append_ts {s t : String} (h : '.' ∉ s.toList) : s ≠ t ++ ".ts" := by
  rintro rfl
  simp at h

section Paths

variable {outputDir : Directory}

theorem getFilename_nil : getFilename outputDir [] = outputDir.parent ++ [outputDir.name ++ ".ts"] := by
  rw [getFilename, List.append_nil, Directory.path, List.modifyLast_concat]

theorem getFilename_concat (ns : Namespace) (id : String) :
    getFilename outputDir (ns ++ [id]) = outputDir.path ++ ns ++ [id ++ ".ts"] := by
  rw [getFilename, ← List.append_assoc, List.modifyLast_concat]

theorem getFilename_inj {ns ns' : Namespace} (h : getFilename outputDir ns = getFilename outputDir ns') :
    ns = ns' := by
  have hlast : ∀ ns : Namespace, ∃ init last, outputDir.path ++ ns = init ++ [last] :=
    fun ns => ⟨_, _, (List.dropLast_append_getLast (by simp [Directory.path])).symm⟩
  obtain ⟨init, last, hns⟩ := hlast ns
  obtain ⟨init', last', hns'⟩ := hlast ns'
  rw [getFilename, getFilename, hns, hns', List.modifyLast_concat, List.modifyLast_concat] at h
  obtain ⟨hinit, hsame⟩ := List.append_inj' h rfl
  have hlast : last = last' := by
    have htext := congrArg removeExtension (List.singleton_inj.mp hsame)
    rwa [removeExtension_append, removeExtension_append] at htext
  rw [hinit, hlast, ← hns'] at hns
  exact List.append_cancel_left hns

/-- A module is in the directory around the output directory, or in one below it. -/
def IsSource (outputDir : Directory) (source : List String) : Prop :=
  source = outputDir.parent ∨ ∃ dirs, source = outputDir.path ++ dirs ∧ Free '.' dirs

theorem isSource_dropLast {ns : Namespace} (h : Free '.' ns) :
    IsSource outputDir (getFilename outputDir ns).dropLast := by
  rcases List.eq_nil_or_concat ns with rfl | ⟨dirs, id, rfl⟩
  · rw [getFilename_nil, List.dropLast_concat]
    exact .inl rfl
  · rw [List.concat_eq_append, getFilename_concat, List.dropLast_concat]
    exact .inr ⟨dirs, rfl, fun s hs => h s (by simp [hs])⟩

/-- An import path leads to the module it is for. -/
theorem target_importPathTo {source : List String} (hsource : IsSource outputDir source)
    {ns : Namespace} (hns : Free '.' ns) :
    (RelativePath.resolve source (importPathTo source (getFilename outputDir ns))).modifyLast
      (· ++ ".ts") = getFilename outputDir ns := by
  -- the directories that both are in, and what is left of the paths below them
  have hcommon : ∃ common rest target file, source = common ++ rest ∧
      getFilename outputDir ns = common ++ target ++ [file ++ ".ts"] ∧ file ++ ".ts" ∉ rest := by
    rcases List.eq_nil_or_concat ns with rfl | ⟨inner, id, rfl⟩
    · rcases hsource with rfl | ⟨dirs, rfl, hdirs⟩
      · refine ⟨outputDir.parent, [], [], outputDir.name, by simp, ?_, List.not_mem_nil⟩
        rw [getFilename_nil, List.append_nil]
      · refine ⟨outputDir.parent, outputDir.name :: dirs, [], outputDir.name, ?_, ?_, ?_⟩
        · rw [Directory.path, List.append_assoc, List.singleton_append]
        · rw [getFilename_nil, List.append_nil]
        · rintro hmem
          rcases List.mem_cons.mp hmem with heq | hmem
          · simpa using congrArg String.length heq
          · exact ne_append_ts (hdirs _ hmem) rfl
    · rw [List.concat_eq_append, getFilename_concat]
      rcases hsource with rfl | ⟨dirs, rfl, hdirs⟩
      · refine ⟨outputDir.parent, [], outputDir.name :: inner, id, by simp, ?_, List.not_mem_nil⟩
        rw [Directory.path, List.append_assoc outputDir.parent, List.singleton_append]
      · exact ⟨outputDir.path, dirs, inner, id, rfl, rfl, fun hmem => ne_append_ts (hdirs _ hmem) rfl⟩
  obtain ⟨common, rest, target, file, rfl, hfilename, hrest⟩ := hcommon
  obtain ⟨down, hdown⟩ := RelativePath.relative_concat common target hrest
  rw [hfilename, importPathTo, RelativePath.resolve_modifyLast removeExtension hdown,
    removeExtension_append, List.modifyLast_concat]

/-- The import path of a module leads to it, whatever the import base is. -/
theorem target_getImportPath {ctx : TSContext} {file : TSFile} {i : TSInclude} {ns ns' : Namespace}
    (hns : Free '.' ns) (hns' : Free '.' ns') (hfile : file.path = getFilename ctx.outputDir ns)
    (hi : i.filename = getFilename ctx.outputDir ns') :
    (getImportPath ctx file i).target ctx.outputDir file.path = i.filename := by
  rw [getImportPath, hi]
  cases ctx.importBase.filter (· ≠ "") with
  | some importBase => exact target_importPathTo (.inr ⟨[], by simp, free_nil _⟩) hns'
  | none =>
    rw [hfile]
    exact target_importPathTo (isSource_dropLast hns) hns'

end Paths

/-! ### The module of a namespace -/

/-- The namespace with a name. -/
def namespaceOf (s : String) : Namespace := if s = "" then [] else splitDots s

theorem namespaceOf_joinDots {ns : Namespace} (h : ∀ id ∈ ns, isIdent id = true) :
    namespaceOf (joinDots ns) = ns := by
  by_cases hnil : ns = []
  · rw [hnil]
    rfl
  · rw [namespaceOf, if_neg (joinDots_ne_empty hnil h), splitDots_joinDots hnil (free_of_ident h)]

theorem namespace_inj {ns ns' : Namespace} (hns : ∀ id ∈ ns, isIdent id = true)
    (hns' : ∀ id ∈ ns', isIdent id = true) (h : joinDots ns = joinDots ns') : ns = ns' := by
  rw [← namespaceOf_joinDots hns, h, namespaceOf_joinDots hns']

/-- The types of a namespace. -/
def entriesIn (schema : SchemaTypes) (ns : Namespace) : TypeMap :=
  schema.types.filter (joinDots ·.2.base.ns = joinDots ns)

/-- The names that are declared, used and imported in the module of a namespace. -/
structure ModuleOf (schema : SchemaTypes) (outputDir : Directory) (ns : Namespace) (m : TSModule) :
    Prop where
  path : m.path = getFilename outputDir ns
  nodup_declared : m.declared.Nodup
  declared : ∀ u, u ∈ m.declared ↔ ∃ entry ∈ schema.types, entry.2.base.ns = ns ∧
    isWritten entry.2 = true ∧ u ∈ namesOf entry
  used : ∀ u, u ∈ m.used ↔ ∃ user ∈ schema.types, user.2.base.ns = ns ∧ Uses schema user.2 u
  nodup_imported : (m.imported outputDir).Nodup
  imported : ∀ e, e ∈ m.imported outputDir ↔ ∃ target ∈ schema.types, target.2.base.ns ≠ ns ∧
    (∃ user ∈ schema.types, user.2.base.ns = ns ∧ RefersTo user.2.refs target) ∧
      e.1 ∈ importNames target ∧ e.2 = getFilename outputDir target.2.base.ns

theorem nodup_namesOf (entry : String × SchemaType) : (namesOf entry).Nodup := by
  obtain ⟨key, t⟩ := entry
  cases t with
  | enum base values => exact List.nodup_singleton _
  | table t => exact List.nodup_singleton _
  | union base values =>
    refine List.nodup_cons.mpr ⟨fun hmem => ?_, List.nodup_singleton _⟩
    have hname := congrArg TSName.name (List.mem_singleton.mp hmem)
    simpa [getUnionTagTypeName] using congrArg String.length hname

theorem mem_declared {entries : TypeMap} {u : TSName} :
    u ∈ entries.flatMap (fun entry => if isWritten entry.2 then namesOf entry else []) ↔
      ∃ entry ∈ entries, isWritten entry.2 = true ∧ u ∈ namesOf entry := by
  rw [List.mem_flatMap]
  refine exists_congr fun entry => and_congr_right fun _ => ?_
  cases isWritten entry.2 <;> simp

theorem nodup_declared {entries : TypeMap} (h : (entries.map (·.1)).Nodup) :
    (entries.flatMap fun entry => if isWritten entry.2 then namesOf entry else []).Nodup := by
  refine List.nodup_flatMap.mpr ⟨fun entry _ => ?_, ?_⟩
  · split_ifs
    · exact nodup_namesOf entry
    · exact List.nodup_nil
  · refine (List.pairwise_map.mp h).imp fun {entry entry'} hne u hu hu' => hne ?_
    have hfqtn : ∀ e : String × SchemaType, u ∈ (if isWritten e.2 then namesOf e else []) →
        u.fqtn = e.1 := by
      intro e hmem
      split_ifs at hmem
      · exact fqtn_of_mem_namesOf hmem
      · cases hmem
    exact (hfqtn entry hu).symm.trans (hfqtn entry' hu')

section Module

variable {schema : SchemaTypes} (hresolved : schema.IsResolved)

include hresolved

theorem ident_ns {entry : String × SchemaType} (h : entry ∈ schema.types) :
    ∀ id ∈ entry.2.base.ns, isIdent id = true :=
  fun id hid => hresolved.ident entry h id (List.mem_append_left _ hid)

theorem mem_entriesIn {ns : Namespace} (hns : ∀ id ∈ ns, isIdent id = true)
    {entry : String × SchemaType} :
    entry ∈ entriesIn schema ns ↔ entry ∈ schema.types ∧ entry.2.base.ns = ns := by
  rw [entriesIn, List.mem_filter]
  refine and_congr_right fun hentry => ?_
  rw [decide_eq_true_iff]
  exact ⟨namespace_inj (ident_ns hresolved hentry) hns, congrArg joinDots⟩

end Module

section Imports

variable {ctx : TSContext} (hresolved : ctx.schema.IsResolved) {file : TSFile} {refs : List TypeRef}
  {includes : TSIncludes} (h : Collected ctx file refs includes)

include hresolved h

/-- An entry of the includes is for the namespace of a type. -/
theorem Collected.exists_ns {e : String × TSInclude} (he : e ∈ includes) :
    ∃ ns, (∀ id ∈ ns, isIdent id = true) ∧ joinDots ns = e.1 ∧
      e.2.filename = getFilename ctx.outputDir ns := by
  have hlookup := (InsertionMap.lookup_eq_some h.nodup).mpr he
  obtain ⟨-, target, htarget, hns, hfilename⟩ := h.entry e.1 e.2 hlookup
  exact ⟨_, ident_ns hresolved htarget, hns, hfilename⟩

theorem Collected.nodup_imported :
    (includes.flatMap fun e => e.2.types.map fun name => (name, e.2.filename)).Nodup := by
  refine List.nodup_flatMap.mpr ⟨fun e he => ?_, ?_⟩
  · have hlookup := (InsertionMap.lookup_eq_some h.nodup).mpr he
    exact (h.entry e.1 e.2 hlookup).1.map fun _ _ heq => (Prod.mk.inj heq).1
  · refine (List.pairwise_map.mp h.nodup).imp_of_mem fun {e e'} he he' hne pair hpair hpair' => ?_
    obtain ⟨ns, -, hns, hfilename⟩ := h.exists_ns hresolved he
    obtain ⟨ns', -, hns', hfilename'⟩ := h.exists_ns hresolved he'
    obtain ⟨name, -, rfl⟩ := List.mem_map.mp hpair
    obtain ⟨name', -, heq⟩ := List.mem_map.mp hpair'
    have hsame := (Prod.mk.inj heq).2
    rw [hfilename, hfilename'] at hsame
    rw [← hns, ← hns', getFilename_inj hsame] at hne
    exact hne rfl

theorem Collected.mem_imported {ns : Namespace} (hns : ∀ id ∈ ns, isIdent id = true)
    (hfile : file.namespace = joinDots ns) (pair : String × List String) :
    pair ∈ (includes.flatMap fun e => e.2.types.map fun name => (name, e.2.filename)) ↔
      ∃ target ∈ ctx.schema.types, target.2.base.ns ≠ ns ∧ RefersTo refs target ∧
        pair.1 ∈ importNames target ∧ pair.2 = getFilename ctx.outputDir target.2.base.ns := by
  obtain ⟨name, path⟩ := pair
  constructor
  · intro hmem
    obtain ⟨e, he, hmem⟩ := List.mem_flatMap.mp hmem
    obtain ⟨name', hname, heq⟩ := List.mem_map.mp hmem
    obtain ⟨rfl, rfl⟩ := Prod.mk.inj heq
    have hlookup := (InsertionMap.lookup_eq_some h.nodup).mpr he
    obtain ⟨hne, target, htarget, hrefers, hkey, hname⟩ := (h.mem e.1 name').mp ⟨e.2, hlookup, hname⟩
    obtain ⟨ns', hns', hkey', hfilename⟩ := h.exists_ns hresolved he
    have hsame := namespace_inj (ident_ns hresolved htarget) hns' (hkey.trans hkey'.symm)
    refine ⟨target, htarget, fun heq => ?_, hrefers, hname, by rw [hfilename, hsame]⟩
    rw [hfile, ← hkey, heq] at hne
    exact hne rfl
  · rintro ⟨target, htarget, hne, hrefers, hname, hpath⟩
    have hother : joinDots target.2.base.ns ≠ file.namespace := by
      rw [hfile]
      exact fun heq => hne (namespace_inj (ident_ns hresolved htarget) hns heq)
    obtain ⟨i, hlookup, hmem⟩ :=
      (h.mem _ name).mpr ⟨hother, target, htarget, hrefers, rfl, hname⟩
    have he := (InsertionMap.lookup_eq_some h.nodup).mp hlookup
    obtain ⟨ns', hns', hkey', hfilename⟩ := h.exists_ns hresolved he
    have hsame := namespace_inj hns' (ident_ns hresolved htarget) hkey'
    refine List.mem_flatMap.mpr ⟨_, he, List.mem_map.mpr ⟨name, hmem, ?_⟩⟩
    rw [hfilename, hsame, ← hpath]

end Imports

theorem refersTo_flatMap {entries : TypeMap} {target : String × SchemaType} :
    RefersTo (entries.flatMap fun entry => entry.2.refs) target ↔
      ∃ user ∈ entries, RefersTo user.2.refs target := by
  simp only [RefersTo, List.mem_flatMap]
  constructor
  · rintro ⟨ref, ⟨user, huser, href⟩, hkey⟩
    exact ⟨user, huser, ref, href, hkey⟩
  · rintro ⟨user, huser, ref, href, hkey⟩
    exact ⟨ref, ⟨user, huser, href⟩, hkey⟩

section Files

variable {ctx : TSContext} (hresolved : ctx.schema.IsResolved)
  (hall : ctx.types = ctx.schema.types.names)

include hresolved hall

/-- The file of a namespace becomes its module. -/
theorem writeFile_spec {ns : Namespace} (hns : ∀ id ∈ ns, isIdent id = true) {file : TSFile}
    (hfile : file = ⟨getFilename ctx.outputDir ns, joinDots ns,
      (entriesIn ctx.schema ns).map (·.1)⟩) :
    ∃ m, writeFile ctx file = .ok m ∧ ModuleOf ctx.schema ctx.outputDir ns m := by
  have hentry : ∀ entry ∈ entriesIn ctx.schema ns, entry ∈ ctx.schema.types :=
    fun entry h => ((mem_entriesIn hresolved hns).mp h).1
  have htypes : file.types = (entriesIn ctx.schema ns).map (·.1) := by rw [hfile]
  obtain ⟨includes, hincludes, hcollected⟩ := collectIncludes_spec hresolved hall hentry htypes
  have hwritten : ∀ entry, ∃ decls, entry ∈ entriesIn ctx.schema ns →
      writeType ctx entry.1 = .ok decls ∧ WrittenFor ctx.schema entry decls := by
    intro entry
    by_cases h : entry ∈ entriesIn ctx.schema ns
    · obtain ⟨decls, hspec⟩ := writeType_spec hresolved hall (hentry entry h)
      exact ⟨decls, fun _ => hspec⟩
    · exact ⟨[], fun hmem => absurd hmem h⟩
  choose decls hdecls using hwritten
  have hwrite : file.types.mapM (writeType ctx) = .ok ((entriesIn ctx.schema ns).map decls) := by
    rw [htypes, List.mapM_map]
    exact Fallible.mapM_eq_ok fun entry h => (hdecls entry h).1
  refine ⟨_, by rw [writeFile, hincludes, hwrite]; rfl, ?_⟩
  have hdeclared : ((entriesIn ctx.schema ns).map decls).flatten.map (·.declared) =
      (entriesIn ctx.schema ns).flatMap fun entry =>
        if isWritten entry.2 then namesOf entry else [] := by
    rw [← List.flatMap_def, List.map_flatMap]
    exact List.flatMap_congr fun entry h => (hdecls entry h).2.declared
  have himported : (includes.map fun e =>
      (⟨e.2.types, getImportPath ctx file e.2⟩ : TSImport)).flatMap (fun i => i.types.map fun name =>
        (name, i.importPath.target ctx.outputDir file.path)) =
          includes.flatMap fun e => e.2.types.map fun name => (name, e.2.filename) := by
    rw [List.flatMap_map]
    refine List.flatMap_congr fun e he => ?_
    obtain ⟨ns', hns', -, hfilename⟩ := hcollected.exists_ns hresolved he
    rw [target_getImportPath (free_of_ident hns) (free_of_ident hns') (by rw [hfile]) hfilename]
  constructor
  · rw [hfile]
  · rw [TSModule.declared, hdeclared]
    exact nodup_declared (hresolved.nodup.sublist (List.filter_sublist.map _))
  · intro u
    rw [TSModule.declared, hdeclared, mem_declared]
    simp only [mem_entriesIn hresolved hns, and_assoc]
  · intro u
    rw [TSModule.used, ← List.flatMap_def, List.flatMap_assoc, List.mem_flatMap]
    refine exists_congr fun user => ?_
    rw [← and_assoc, ← mem_entriesIn hresolved hns]
    exact and_congr_right fun huser => (hdecls user huser).2.used u
  · rw [TSModule.imported, himported]
    exact hcollected.nodup_imported hresolved
  · intro e
    rw [TSModule.imported, himported, hcollected.mem_imported hresolved hns (by rw [hfile])]
    refine exists_congr fun target => and_congr_right fun _ => and_congr_right fun _ =>
      and_congr_left fun _ => ?_
    simp only [refersTo_flatMap, mem_entriesIn hresolved hns, and_assoc]

end Files

/-! ### The modules of a schema -/

theorem foldl_files (file : TSFile) (entries : TypeMap) :
    entries.foldl (fun file entry => { file with types := file.types ++ [entry.1] }) file =
      { file with types := file.types ++ entries.map (·.1) } := by
  induction entries generalizing file with
  | nil => simp
  | cons entry entries ih =>
    rw [List.foldl_cons, ih]
    simp

/-- The file of a namespace. -/
def fileOf (schema : SchemaTypes) (outputDir : Directory) (ns : Namespace) : TSFile :=
  ⟨getFilename outputDir ns, joinDots ns, (entriesIn schema ns).map (·.1)⟩

theorem mem_files {schema : SchemaTypes} (hresolved : schema.IsResolved) (outputDir : Directory)
    (e : String × TSFile) : e ∈ schema.types.foldl (addToFile outputDir) [] ↔
      ∃ entry ∈ schema.types, joinDots entry.2.base.ns = e.1 ∧
        fileOf schema outputDir entry.2.base.ns = e.2 := by
  let key (entry : String × SchemaType) := joinDots entry.2.base.ns
  let init (ns : String) : TSFile := ⟨getFilename outputDir (namespaceOf ns), ns, []⟩
  let new (entry : String × SchemaType) : TSFile :=
    ⟨getFilename outputDir entry.2.base.ns, key entry, []⟩
  let add (file : TSFile) (entry : String × SchemaType) :=
    { file with types := file.types ++ [entry.1] }
  have hnew : ∀ entry ∈ schema.types, new entry = init (key entry) := by
    intro entry hentry
    have hsame := namespaceOf_joinDots (ident_ns hresolved hentry)
    simp only [new, init, key, hsame]
  have hfile : ∀ entry ∈ schema.types,
      (schema.types.filter (key · = key entry)).foldl add (init (key entry)) =
        fileOf schema outputDir entry.2.base.ns := by
    intro entry hentry
    rw [← hnew entry hentry, foldl_files]
    rfl
  change e ∈ schema.types.foldl (InsertionMap.addToGroup key new add) [] ↔ _
  rw [← InsertionMap.lookup_eq_some (InsertionMap.nodup_groups schema.types),
    InsertionMap.lookup_groups init hnew]
  constructor
  · intro hlookup
    split_ifs at hlookup with hkey
    obtain ⟨entry, hentry, hkey⟩ := List.mem_map.mp hkey
    rw [← hkey, hfile entry hentry] at hlookup
    exact ⟨entry, hentry, hkey, Option.some.inj hlookup⟩
  · rintro ⟨entry, hentry, hkey, hsame⟩
    rw [← hkey, if_pos (List.mem_map_of_mem hentry), ← hsame]
    exact congrArg some (hfile entry hentry)

/-- Without filters, every namespace with a type has its module. -/
theorem writeTypeScriptOutput_spec {schema : SchemaTypes} (hresolved : schema.IsResolved)
    (outputDir : Directory) (importBase : Option String) :
    ∃ modules, writeTypeScriptOutput schema ⟨[], []⟩ outputDir importBase = .ok modules ∧
      (∀ m ∈ modules, ∃ entry ∈ schema.types, ModuleOf schema outputDir entry.2.base.ns m) ∧
        ∀ entry ∈ schema.types, ∃ m ∈ modules, ModuleOf schema outputDir entry.2.base.ns m := by
  have hincluded : (schema.types.filter fun entry =>
      TypeFilter.includeType ⟨[], []⟩ entry.1.toList) = schema.types :=
    List.filter_eq_self.mpr fun _ _ => rfl
  rw [writeTypeScriptOutput, hincluded]
  generalize hctx : (⟨schema, schema.types.map (·.1), outputDir, importBase⟩ : TSContext) = ctx
  have hschema : ctx.schema = schema := by rw [← hctx]
  have hall : ctx.types = ctx.schema.types.names := by
    rw [← hctx]
    rfl
  have hwrite : ∀ entry ∈ schema.types, ∃ m,
      writeFile ctx (fileOf schema outputDir entry.2.base.ns) = .ok m ∧
        ModuleOf schema outputDir entry.2.base.ns m := by
    intro entry hentry
    have hspec := writeFile_spec (hschema ▸ hresolved) hall (ident_ns hresolved hentry) rfl
    rw [← hctx] at hspec ⊢
    exact hspec
  have hfiles := mem_files hresolved outputDir
  obtain ⟨modules, hrun⟩ := Fallible.mapM_total
    fun e (he : e ∈ schema.types.foldl (addToFile outputDir) []) => by
      obtain ⟨entry, hentry, -, hfile⟩ := (hfiles e).mp he
      obtain ⟨m, hm, -⟩ := hwrite entry hentry
      exact ⟨m, hfile ▸ hm⟩
  refine ⟨modules, hrun, fun m hm => ?_, fun entry hentry => ?_⟩
  · obtain ⟨e, he, hwritten⟩ := (Fallible.mem_mapM_ok hrun).mp hm
    obtain ⟨entry, hentry, -, hfile⟩ := (hfiles e).mp he
    obtain ⟨m', hm', hmodule⟩ := hwrite entry hentry
    rw [hfile] at hm'
    obtain rfl := Except.ok.inj (hwritten.symm.trans hm')
    exact ⟨entry, hentry, hmodule⟩
  · have he := (hfiles (joinDots entry.2.base.ns, _)).mpr ⟨entry, hentry, rfl, rfl⟩
    obtain ⟨m, hm, hwritten⟩ := Fallible.exists_of_mapM_ok hrun he
    obtain ⟨m', hm', hmodule⟩ := hwrite entry hentry
    obtain rfl := Except.ok.inj (hwritten.symm.trans hm')
    exact ⟨m, hm, hmodule⟩

end Motis.Protocol.TypeScript
