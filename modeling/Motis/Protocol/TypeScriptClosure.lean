import Motis.Protocol.TypeScriptModules

/-! Which TypeScript modules are closed.

    A name in a module stands for what is declared or imported under it, and that should be one thing:

        T from ./a
        T from ./b        x: T stands for both -/

namespace Motis.Protocol.TypeScript

/-! ### Closed modules -/

namespace TSModule

def declaredAs (m : TSModule) (name : String) : List TSName := m.declared.filter (·.name = name)

def importedAs (outputDir : Directory) (m : TSModule) (name : String) :
    List (String × List String) :=
  (m.imported outputDir).filter (·.1 = name)

end TSModule

section Closed

variable (reserved : String → Bool) (outputDir : Directory) (modules : List TSModule)

/-- A name is declared once and not imported, or imported once, from a module that declares it once.
    The names in `reserved` are TypeScript's own. -/
def Refers (m : TSModule) (u : TSName) : Prop :=
  reserved u.name = false ∧
    (m.declaredAs u.name = [u] ∧ m.importedAs outputDir u.name = [] ∨
      m.declaredAs u.name = [] ∧ ∃ path, m.importedAs outputDir u.name = [(u.name, path)] ∧
        ∃ m' ∈ modules, m'.path = path ∧ m'.declaredAs u.name = [u])

/-- Every name that is used stands for its type, and what is imported is declared. -/
structure Closed (m : TSModule) : Prop where
  refers : ∀ u ∈ m.used, Refers reserved outputDir modules m u
  declared : ∀ e ∈ m.imported outputDir, ∃ m' ∈ modules, m'.path = e.2 ∧
    ∃ u ∈ m'.declared, u.name = e.1

end Closed

/-! ### Clear names -/

/-- What a module of a namespace declares or imports. -/
def Visible (schema : SchemaTypes) (ns : Namespace) (t : String × SchemaType) : Prop :=
  (isWritten t.2 = true ∧ t.2.base.ns = ns) ∨
    ∃ user ∈ schema.types, user.2.base.ns = ns ∧ RefersTo user.2.refs t

/-- Every type that is used is written, and no other one that is visible in the namespace of the use, or
    written in its own one, has its name. -/
def NamesClear (reserved : String → Bool) (schema : SchemaTypes) : Prop :=
  ∀ user ∈ schema.types, ∀ t ∈ schema.types, ∀ u ∈ namesOf t, Uses schema user.2 u →
    isWritten t.2 = true ∧ reserved u.name = false ∧
      ∀ other ∈ schema.types, ∀ v ∈ namesOf other, v.name = u.name → v ≠ u →
        ¬ Visible schema user.2.base.ns other ∧
          ¬ (isWritten other.2 = true ∧ other.2.base.ns = t.2.base.ns)

theorem filter_eq_singleton {α : Type} {l : List α} (h : l.Nodup) {p : α → Bool} {a : α} :
    l.filter p = [a] ↔ (a ∈ l ∧ p a = true) ∧ ∀ b ∈ l, p b = true → b = a := by
  constructor
  · intro hfilter
    have hmem : ∀ b, b ∈ l ∧ p b = true ↔ b = a := fun b => by
      rw [← List.mem_filter, hfilter, List.mem_singleton]
    exact ⟨(hmem a).mpr rfl, fun b hb hp => (hmem b).mp ⟨hb, hp⟩⟩
  · rintro ⟨ha, hunique⟩
    have hperm : (l.filter p).Perm [a] := by
      refine (List.perm_ext_iff_of_nodup (h.filter p) (List.nodup_singleton a)).mpr fun b => ?_
      rw [List.mem_filter, List.mem_singleton]
      exact ⟨fun hb => hunique b hb.1 hb.2, fun heq => heq ▸ ha⟩
    exact List.perm_singleton.mp hperm

theorem owner_unique {schema : SchemaTypes} (hresolved : schema.IsResolved)
    {t t' : String × SchemaType} (ht : t ∈ schema.types) (ht' : t' ∈ schema.types) {u : TSName}
    (hu : u ∈ namesOf t) (hu' : u ∈ namesOf t') : t = t' :=
  entry_unique hresolved ht ht' ((fqtn_of_mem_namesOf hu).symm.trans (fqtn_of_mem_namesOf hu'))

theorem uses_of_refersTo {schema : SchemaTypes} (hresolved : schema.IsResolved)
    {user t : String × SchemaType} (huser : user ∈ schema.types) (ht : t ∈ schema.types)
    (h : RefersTo user.2.refs t) : Uses schema user.2 ⟨t.2.base.name, t.1⟩ := by
  obtain ⟨ref, href, hkey⟩ := h
  obtain ⟨target, htarget, hfqtn, hkey'⟩ := bound_entry hresolved (mem_refs huser href)
  obtain rfl := entry_unique hresolved htarget ht (hkey'.symm.trans hkey)
  rw [← typeName_eq hfqtn hkey']
  exact .type href

section Modules

variable {schema : SchemaTypes} (hresolved : schema.IsResolved) {outputDir : Directory}
  {ns : Namespace} {m : TSModule} (hm : ModuleOf schema outputDir ns m)

include hm

theorem ModuleOf.declaredAs_iff {u : TSName} :
    m.declaredAs u.name = [u] ↔ u ∈ m.declared ∧ ∀ v ∈ m.declared, v.name = u.name → v = u := by
  rw [TSModule.declaredAs, filter_eq_singleton hm.nodup_declared]
  simp

theorem ModuleOf.importedAs_iff {name : String} {path : List String} :
    m.importedAs outputDir name = [(name, path)] ↔ (name, path) ∈ m.imported outputDir ∧
      ∀ path', (name, path') ∈ m.imported outputDir → path' = path := by
  rw [TSModule.importedAs, filter_eq_singleton hm.nodup_imported]
  refine and_congr (and_iff_left (decide_eq_true rfl)) ⟨fun h path' hmem => ?_, ?_⟩
  · exact (Prod.mk.inj (h _ hmem (decide_eq_true rfl))).2
  · rintro h ⟨name', path'⟩ hmem hname
    obtain rfl := of_decide_eq_true hname
    rw [h path' hmem]

include hresolved

/-- A type is declared in the module of its namespace. -/
theorem ModuleOf.mem_declared_iff {t : String × SchemaType} (ht : t ∈ schema.types) {u : TSName}
    (hu : u ∈ namesOf t) : u ∈ m.declared ↔ t.2.base.ns = ns ∧ isWritten t.2 = true := by
  rw [hm.declared]
  constructor
  · rintro ⟨entry, hentry, hns, hwritten, hmem⟩
    obtain rfl := owner_unique hresolved ht hentry hu hmem
    exact ⟨hns, hwritten⟩
  · rintro ⟨hns, hwritten⟩
    exact ⟨t, ht, hns, hwritten, hu⟩

/-- What is visible in the module is declared or imported. -/
theorem ModuleOf.visible {t : String × SchemaType} (ht : t ∈ schema.types)
    (hwritten : isWritten t.2 = true) (hvisible : Visible schema ns t) {u : TSName}
    (hu : u ∈ namesOf t) : u ∈ m.declared ∨
      (u.name, getFilename outputDir t.2.base.ns) ∈ m.imported outputDir := by
  by_cases hns : t.2.base.ns = ns
  · exact .inl ((hm.mem_declared_iff hresolved ht hu).mpr ⟨hns, hwritten⟩)
  · obtain ⟨-, hself⟩ | ⟨user, huser, hns', hrefers⟩ := hvisible
    · exact absurd hself hns
    · exact .inr ((hm.imported _).mpr
        ⟨t, ht, hns, ⟨user, huser, hns', hrefers⟩, List.mem_map_of_mem hu, rfl⟩)

end Modules

section Closure

variable {reserved : String → Bool} {schema : SchemaTypes} (hresolved : schema.IsResolved)
  {outputDir : Directory} {modules : List TSModule}
  (hmod : ∀ entry ∈ schema.types, ∃ m ∈ modules, ModuleOf schema outputDir entry.2.base.ns m)
  (hof : ∀ m ∈ modules, ∃ entry ∈ schema.types, ModuleOf schema outputDir entry.2.base.ns m)

include hresolved hmod

/-- A name that is clear refers to its type in every module that uses it. -/
theorem refers_of_namesClear (hclear : NamesClear reserved schema) {ns : Namespace} {m : TSModule}
    (hmodule : ModuleOf schema outputDir ns m) {u : TSName} (hu : u ∈ m.used) :
    Refers reserved outputDir modules m u := by
  obtain ⟨user, huser, hns, huses⟩ := (hmodule.used u).mp hu
  obtain ⟨t, ht, hut, hrefers⟩ := huses.owner hresolved huser
  obtain ⟨hwritten, hreserved, hother⟩ := hclear user huser t ht u hut huses
  rw [hns] at hother
  -- another type with the name is neither declared nor imported
  have hdeclared : ∀ v ∈ m.declared, v.name = u.name → v = u := by
    intro v hv hname
    obtain ⟨other, hmem, hns', hwritten', hv'⟩ := (hmodule.declared v).mp hv
    by_contra hne
    exact (hother other hmem v hv' hname hne).1 (.inl ⟨hwritten', hns'⟩)
  have himported : ∀ path, (u.name, path) ∈ m.imported outputDir →
      t.2.base.ns ≠ ns ∧ path = getFilename outputDir t.2.base.ns := by
    intro path hmem
    obtain ⟨other, hmem', hne, hrefers', hname, hpath⟩ := (hmodule.imported _).mp hmem
    obtain ⟨v, hv, hname⟩ := List.mem_map.mp hname
    have hsame : v = u := by
      by_contra hne
      exact (hother other hmem' v hv hname hne).1 (.inr hrefers')
    rw [hsame] at hv
    obtain rfl := owner_unique hresolved hmem' ht hv hut
    exact ⟨hne, hpath⟩
  refine ⟨hreserved, ?_⟩
  by_cases hsame : t.2.base.ns = ns
  · refine .inl ⟨hmodule.declaredAs_iff.mpr
      ⟨(hmodule.mem_declared_iff hresolved ht hut).mpr ⟨hsame, hwritten⟩, hdeclared⟩, ?_⟩
    refine List.filter_eq_nil_iff.mpr fun e he hname => ?_
    obtain ⟨name, path⟩ := e
    obtain rfl := of_decide_eq_true hname
    exact (himported path he).1 hsame
  · obtain ⟨m', hm', hmodule'⟩ := hmod t ht
    have hnone : m.declaredAs u.name = [] := by
      refine List.filter_eq_nil_iff.mpr fun v hv hname => ?_
      rw [hdeclared v hv (of_decide_eq_true hname)] at hv
      exact hsame ((hmodule.mem_declared_iff hresolved ht hut).mp hv).1
    have hself : (u.name, getFilename outputDir t.2.base.ns) ∈ m.imported outputDir :=
      (hmodule.imported _).mpr
        ⟨t, ht, hsame, ⟨user, huser, hns, hrefers⟩, List.mem_map_of_mem hut, rfl⟩
    have honce : m'.declaredAs u.name = [u] := by
      refine hmodule'.declaredAs_iff.mpr
        ⟨(hmodule'.mem_declared_iff hresolved ht hut).mpr ⟨rfl, hwritten⟩, fun v hv hname => ?_⟩
      obtain ⟨other, hmem, hns', hwritten', hv'⟩ := (hmodule'.declared v).mp hv
      by_contra hne
      exact (hother other hmem v hv' hname hne).2 ⟨hwritten', hns'⟩
    exact .inr ⟨hnone, _, hmodule.importedAs_iff.mpr
      ⟨hself, fun path' hmem => (himported path' hmem).2⟩, m', hm', hmodule'.path, honce⟩

include hof

/-- What is used in closed modules is written. -/
theorem written_of_closed (hclosed : ∀ m ∈ modules, Closed reserved outputDir modules m)
    {user t : String × SchemaType} (huser : user ∈ schema.types) (ht : t ∈ schema.types) {u : TSName}
    (hu : u ∈ namesOf t) (huses : Uses schema user.2 u) : isWritten t.2 = true := by
  obtain ⟨m, hm, hmodule⟩ := hmod user huser
  obtain ⟨-, ⟨hdeclared, -⟩ | ⟨-, path, -, m', hm', -, hdeclared⟩⟩ :=
    (hclosed m hm).refers u ((hmodule.used u).mpr ⟨user, huser, rfl, huses⟩)
  · have hmem := (hmodule.declaredAs_iff.mp hdeclared).1
    exact ((hmodule.mem_declared_iff hresolved ht hu).mp hmem).2
  · obtain ⟨entry, hentry, hmodule'⟩ := hof m' hm'
    have hmem := (hmodule'.declaredAs_iff.mp hdeclared).1
    exact ((hmodule'.mem_declared_iff hresolved ht hu).mp hmem).2

theorem namesClear_of_closed (hclosed : ∀ m ∈ modules, Closed reserved outputDir modules m) :
    NamesClear reserved schema := by
  intro user huser t ht u hu huses
  have hwritten := written_of_closed hresolved hmod hof hclosed huser ht hu huses
  obtain ⟨m, hm, hmodule⟩ := hmod user huser
  have hrefers := (hclosed m hm).refers u ((hmodule.used u).mpr ⟨user, huser, rfl, huses⟩)
  refine ⟨hwritten, hrefers.1, fun other hother v hv hname hne => ?_⟩
  -- a type that is referred to in the namespace is used there, so it is written
  have hvisible : Visible schema user.2.base.ns other → isWritten other.2 = true := by
    rintro (⟨hwritten, -⟩ | ⟨user', huser', -, href⟩)
    · exact hwritten
    · exact written_of_closed hresolved hmod hof hclosed huser' hother (base_mem_namesOf other)
        (uses_of_refersTo hresolved huser' hother href)
  obtain ⟨-, ⟨hdeclared, himported⟩ | ⟨hdeclared, path, himported, m', hm', hpath, hdeclared'⟩⟩ :=
    hrefers
  · obtain ⟨hu', hunique⟩ := hmodule.declaredAs_iff.mp hdeclared
    have hns := ((hmodule.mem_declared_iff hresolved ht hu).mp hu').1
    refine ⟨fun hvis => ?_, fun ⟨hwritten', hns'⟩ => ?_⟩
    · rcases hmodule.visible hresolved hother (hvisible hvis) hvis hv with hmem | hmem
      · exact hne (hunique v hmem hname)
      · exact List.filter_eq_nil_iff.mp himported _ hmem (decide_eq_true hname)
    · exact hne (hunique v ((hmodule.mem_declared_iff hresolved hother hv).mpr
        ⟨hns'.trans hns, hwritten'⟩) hname)
  · obtain ⟨entry, hentry, hmodule'⟩ := hof m' hm'
    obtain ⟨hu', hunique⟩ := hmodule'.declaredAs_iff.mp hdeclared'
    have hns := ((hmodule'.mem_declared_iff hresolved ht hu).mp hu').1
    refine ⟨fun hvis => ?_, fun ⟨hwritten', hns'⟩ => ?_⟩
    · rcases hmodule.visible hresolved hother (hvisible hvis) hvis hv with hmem | hmem
      · exact List.filter_eq_nil_iff.mp hdeclared v hmem (decide_eq_true hname)
      · rw [hname] at hmem
        have hsame := (hmodule.importedAs_iff.mp himported).2 _ hmem
        have hns' := getFilename_inj (hsame.trans (hpath.symm.trans hmodule'.path))
        exact hne (hunique v ((hmodule'.mem_declared_iff hresolved hother hv).mpr
          ⟨hns', hvisible hvis⟩) hname)
    · exact hne (hunique v ((hmodule'.mem_declared_iff hresolved hother hv).mpr
        ⟨hns'.trans hns, hwritten'⟩) hname)

theorem closed_of_namesClear (hclear : NamesClear reserved schema) {m : TSModule}
    (hm : m ∈ modules) : Closed reserved outputDir modules m := by
  obtain ⟨entry, hentry, hmodule⟩ := hof m hm
  refine ⟨fun u hu => refers_of_namesClear hresolved hmod hclear hmodule hu, fun e he => ?_⟩
  obtain ⟨t, ht, -, ⟨user, huser, -, hrefers⟩, hname, hpath⟩ := (hmodule.imported e).mp he
  obtain ⟨m', hm', hmodule'⟩ := hmod t ht
  obtain ⟨u, hu, hname⟩ := List.mem_map.mp hname
  have hwritten := (hclear user huser t ht _ (base_mem_namesOf t)
    (uses_of_refersTo hresolved huser ht hrefers)).1
  exact ⟨m', hm', hmodule'.path.trans hpath.symm, u,
    (hmodule'.mem_declared_iff hresolved ht hu).mpr ⟨rfl, hwritten⟩, hname⟩

end Closure

/-- Two tables of one name, and a table that uses both. -/
def sameName : SchemaTypes where
  types :=
    let base (ns name : String) : TypeBase := ⟨name, [ns], "m", "m", none⟩
    let ref (ns name : String) : TypeRef := ⟨ns ++ "." ++ name, ["c"], [ns, name]⟩
    [("a.T", .table ⟨base "a" "T", false, [], false, true⟩),
     ("b.T", .table ⟨base "b" "T", false, [], false, true⟩),
     ("c.S", .table ⟨base "c" "S", false, [⟨"x", .custom (ref "a" "T"), none, none⟩,
        ⟨"y", .vector (.custom (ref "b" "T")), none, none⟩], false, false⟩)]
  rootType := none

theorem isResolved_sameName : sameName.IsResolved :=
  .of_checks (by decide) (by decide) (by decide) (by decide) (by decide)

/-- The modules are closed exactly when the names are clear. -/
theorem modules_closed_iff (reserved : String → Bool) (schema : SchemaTypes)
    (hresolved : schema.IsResolved) (outputDir : Directory) (importBase : Option String) :
    (∃ modules, writeTypeScriptOutput schema ⟨[], []⟩ outputDir importBase = .ok modules ∧
      ∀ m ∈ modules, Closed reserved outputDir modules m) ↔ NamesClear reserved schema := by
  obtain ⟨modules, hrun, hof, hmod⟩ := writeTypeScriptOutput_spec hresolved outputDir importBase
  constructor
  · rintro ⟨modules', hrun', hclosed⟩
    obtain rfl := Except.ok.inj (hrun.symm.trans hrun')
    exact namesClear_of_closed hresolved hmod hof hclosed
  · intro hclear
    exact ⟨modules, hrun, fun m hm => closed_of_namesClear hresolved hmod hof hclear hm⟩

def generated : Directory := ⟨["src"], "gen"⟩

theorem modules_closed_iff_sameName :
    (∃ modules, writeTypeScriptOutput sameName ⟨[], []⟩ generated none = .ok modules ∧
      ∀ m ∈ modules, Closed (· == "number") generated modules m) ↔
        NamesClear (· == "number") sameName :=
  modules_closed_iff _ _ isResolved_sameName _ _

/-- Both names are imported to the module that uses them. -/
theorem modules_not_closed : ¬ ∀ (schema : SchemaTypes), schema.IsResolved →
    ∀ (outputDir : Directory) (importBase : Option String),
      ∃ modules, writeTypeScriptOutput schema ⟨[], []⟩ outputDir importBase = .ok modules ∧
        ∀ m ∈ modules, Closed (fun _ => false) outputDir modules m := by
  intro hall
  obtain ⟨modules, hrun, hclosed⟩ := hall sameName isResolved_sameName generated none
  obtain ⟨modules', hrun', hof, hmod⟩ :=
    writeTypeScriptOutput_spec isResolved_sameName generated none
  obtain rfl := Except.ok.inj (hrun.symm.trans hrun')
  have hclear := namesClear_of_closed isResolved_sameName hmod hof hclosed
  have href : (⟨"a.T", ["c"], ["a", "T"]⟩ : TypeRef) ∈ (sameName.types[2]).2.refs := by decide
  have huses : Uses sameName (sameName.types[2]).2 ⟨"T", "a.T"⟩ := .type href
  obtain ⟨-, -, hother⟩ := hclear _ (List.getElem_mem _) (sameName.types[0]) (List.getElem_mem _) _
    (by decide) huses
  refine (hother (sameName.types[1]) (List.getElem_mem _) ⟨"T", "b.T"⟩ (by decide) rfl
    (by decide)).1 (.inr ⟨sameName.types[2], List.getElem_mem _, rfl, ?_⟩)
  exact ⟨⟨"b.T", ["c"], ["b", "T"]⟩, by decide, by decide⟩

end Motis.Protocol.TypeScript
