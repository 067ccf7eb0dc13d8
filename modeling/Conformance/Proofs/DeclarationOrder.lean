import Conformance.Proofs.AliasOrder
import Conformance.Proofs.AliasReading

namespace Conformance

namespace Item

def isType (item : Item) : Bool := item.typeName?.isSome

theorem eq_alias_of_alias? {item : Item} {found : AliasDef} (h : item.alias? = some found) :
    item = .alias found := by
  cases item with
  | «alias» _ => exact congrArg Item.alias (Option.some.inj h)
  | _ => cases h

end Item

namespace Program

def typeNames (program : Program) : List String := program.filterMap Item.typeName?

def typeItem? (program : Program) (name : String) : Option Item :=
  program.find? fun item => item.typeName? = some name

def aliases (program : Program) : List AliasDef := program.filterMap Item.alias?

-- Every type has a name of its own.
def Distinct (program : Program) : Prop := program.typeNames.Nodup

instance (program : Program) : Decidable program.Distinct :=
  inferInstanceAs (Decidable program.typeNames.Nodup)

variable {program other : Program} {name : String}

theorem typeItem?_cons (item : Item) (rest : Program) : typeItem? (item :: rest) name =
    if item.typeName? = some name then some item else typeItem? rest name := by
  rw [typeItem?, List.find?_cons]
  split <;> simp_all [typeItem?]

theorem typeItem?_eq_none (h : name ∉ program.typeNames) : program.typeItem? name = none := by
  refine List.find?_eq_none.mpr fun item hitem hname => h ?_
  exact List.mem_filterMap.mpr ⟨item, hitem, by simpa using hname⟩

theorem Distinct.tail {item : Item} {rest : Program} (h : Distinct (item :: rest)) :
    Distinct rest :=
  List.pairwise_filterMap.mpr (List.pairwise_cons.mp (List.pairwise_filterMap.mp h)).2

-- The first item of a name is the only one.
theorem Distinct.not_mem_tail {item : Item} {rest : Program} (h : Distinct (item :: rest))
    (hname : item.typeName? = some name) : name ∉ typeNames rest := by
  intro hmem
  obtain ⟨other, hother, hname'⟩ := List.mem_filterMap.mp hmem
  have hfirst := (List.pairwise_cons.mp (List.pairwise_filterMap.mp h)).1
  exact hfirst other hother name hname name hname' rfl

theorem typeItem?_eq_some_iff (hdistinct : program.Distinct) {item : Item} :
    program.typeItem? name = some item ↔ item ∈ program ∧ item.typeName? = some name := by
  constructor
  · intro h
    exact ⟨List.mem_of_find?_eq_some h, by simpa using List.find?_some h⟩
  · rintro ⟨hitem, hname⟩
    induction program with
    | nil => cases hitem
    | cons first rest ih =>
        rw [typeItem?_cons]
        rcases List.mem_cons.mp hitem with rfl | hmem
        · rw [if_pos hname]
        · have hrest : name ∈ typeNames rest := List.mem_filterMap.mpr ⟨item, hmem, hname⟩
          rw [if_neg fun heq => hdistinct.not_mem_tail heq hrest, ih hdistinct.tail hmem]

theorem typeNames_filter (program : Program) :
    Program.typeNames (program.filter Item.isType) = program.typeNames := by
  rw [typeNames, typeNames, List.filterMap_filter]
  refine List.filterMap_congr fun item _ => ?_
  cases item <;> rfl

theorem aliases_filter (program : Program) :
    Program.aliases (program.filter Item.isType) = program.aliases := by
  rw [aliases, aliases, List.filterMap_filter]
  refine List.filterMap_congr fun item _ => ?_
  cases item <;> rfl

section Rearranged

variable (hperm : (program.filter Item.isType).Perm (other.filter Item.isType))

include hperm

theorem typeNames_perm : program.typeNames.Perm other.typeNames := by
  rw [← typeNames_filter program, ← typeNames_filter other]
  exact hperm.filterMap _

theorem distinct_perm (hdistinct : program.Distinct) : other.Distinct :=
  (typeNames_perm hperm).nodup_iff.mp hdistinct

theorem aliases_perm : program.aliases.Perm other.aliases := by
  rw [← aliases_filter program, ← aliases_filter other]
  exact hperm.filterMap _

theorem typeItem?_perm (hdistinct : program.Distinct) :
    program.typeItem? name = other.typeItem? name := by
  have hdistinct' := distinct_perm hperm hdistinct
  have hmem (item : Item) (hname : item.typeName? = some name) :
      item ∈ program ↔ item ∈ other := by
    have htype : item.isType = true := by simp [Item.isType, hname]
    simpa [List.mem_filter, htype] using hperm.mem_iff (a := item)
  ext item
  rw [typeItem?_eq_some_iff hdistinct, typeItem?_eq_some_iff hdistinct']
  exact ⟨fun h => ⟨(hmem item h.2).mp h.1, h.2⟩, fun h => ⟨(hmem item h.2).mpr h.1, h.2⟩⟩

end Rearranged

theorem nodup_aliases (hdistinct : program.Distinct) :
    (program.aliases.map AliasDef.name).Nodup := by
  refine List.pairwise_map.mpr (List.pairwise_filterMap.mpr ?_)
  refine (List.pairwise_filterMap.mp hdistinct).imp ?_
  intro first second hne item hitem item' hitem'
  obtain rfl := Item.eq_alias_of_alias? hitem
  obtain rfl := Item.eq_alias_of_alias? hitem'
  exact hne _ rfl _ rfl

end Program

-- Only types are declared, all in one scope.
structure Environment.IsTypes (env : Environment) : Prop where
  flat : env.outer = []
  kind : ∀ name decl, env.lookup? name = some decl → decl.isFunction = false

namespace Environment

variable {env : Environment} {name : String} {decl : Declaration}

theorem lookupLocal?_of_flat (h : env.outer = []) (name : String) :
    env.lookupLocal? name = env.lookup? name := by
  rw [lookup?, h, List.findSome?_cons, List.findSome?_nil, lookupLocal?]
  cases env.scope.get? name <;> rfl

theorem isTypes_empty : IsTypes ∅ := ⟨rfl, by intro name decl h; cases h⟩

theorem IsTypes.define (h : env.IsTypes) (name : String) (hdecl : decl.isFunction = false) :
    (env.define name decl).IsTypes where
  flat := h.flat
  kind := by
    intro other found hfound
    rw [lookup?_define] at hfound
    split at hfound
    · obtain rfl := Option.some.inj hfound
      exact hdecl
    · exact h.kind other found hfound

end Environment

namespace Item

variable {item : Item} {name : String}

theorem shell?_of_typeName? (h : item.typeName? = some name) :
    ∃ shell, item.shell? = some shell ∧ shell.isFunction = false := by
  cases item <;> simp_all [typeName?, shell?, Declaration.isFunction]

theorem isFunction_declaration {env : Environment} {decl : Declaration}
    (h : item.declaration? env = some decl) : decl.isFunction = false := by
  cases item <;> simp [declaration?] at h <;> subst h <;> rfl

theorem typeName?_of_declaration {env : Environment} {decl : Declaration}
    (h : item.declaration? env = some decl) : ∃ name, item.typeName? = some name := by
  cases item <;> simp [declaration?] at h <;> simp [typeName?]

end Item

namespace Collection

variable {c : Collection} {program other : Program} {name : String}

theorem declareShells_type {item : Item} {rest : Program} {shell : Declaration}
    (hname : item.typeName? = some name) (hshell : item.shell? = some shell)
    (hfresh : c.env.lookupLocal? name = none) :
    c.declareShells (item :: rest) =
      (((c.define name shell).declareShells rest).1,
        item :: ((c.define name shell).declareShells rest).2) := by
  simp [declareShells, hname, hshell, hfresh]

theorem declareShells_other {item : Item} {rest : Program} (hname : item.typeName? = none) :
    c.declareShells (item :: rest) =
      ((c.declareShells rest).1, item :: (c.declareShells rest).2) := by
  simp [declareShells, hname]

-- With distinct names no item is left out, and every type is bound to its shell.
theorem declareShells_spec (hdistinct : program.Distinct) (htypes : c.env.IsTypes)
    (hfresh : ∀ name ∈ program.typeNames, c.env.lookup? name = none) :
    (c.declareShells program).2 = program ∧ (c.declareShells program).1.env.IsTypes ∧
      ∀ name, (c.declareShells program).1.env.lookup? name =
        ((program.typeItem? name).bind Item.shell?).or (c.env.lookup? name) := by
  induction program generalizing c with
  | nil => exact ⟨rfl, htypes, fun name => by simp [declareShells, Program.typeItem?]⟩
  | cons item rest ih =>
      cases hname : item.typeName? with
      | none =>
          have hnames : Program.typeNames (item :: rest) = Program.typeNames rest := by
            simp [Program.typeNames, hname]
          rw [hnames] at hfresh
          obtain ⟨hkept, hshells, hlookup⟩ := ih hdistinct.tail htypes hfresh
          rw [declareShells_other hname]
          refine ⟨congrArg _ hkept, hshells, fun name => ?_⟩
          rw [hlookup, Program.typeItem?_cons, hname, if_neg (by simp)]
      | some first =>
          have hnames : Program.typeNames (item :: rest) = first :: Program.typeNames rest := by
            simp [Program.typeNames, hname]
          rw [hnames] at hfresh
          have hfirst := hdistinct.not_mem_tail hname
          obtain ⟨hfree, hfresh⟩ := List.forall_mem_cons.mp hfresh
          obtain ⟨shell, hshell, hkind⟩ := Item.shell?_of_typeName? hname
          have hrest : ∀ name ∈ Program.typeNames rest,
              (c.define first shell).env.lookup? name = none := by
            intro name hmem
            have hne : first ≠ name := fun heq => hfirst (heq ▸ hmem)
            rw [define, Environment.lookup?_define, if_neg hne, hfresh name hmem]
          obtain ⟨hkept, hshells, hlookup⟩ := ih hdistinct.tail (htypes.define first hkind) hrest
          have hlocal : c.env.lookupLocal? first = none := by
            rw [Environment.lookupLocal?_of_flat htypes.flat, hfree]
          rw [declareShells_type hname hshell hlocal]
          refine ⟨congrArg _ hkept, hshells, fun name => ?_⟩
          rw [hlookup, define, Environment.lookup?_define, Program.typeItem?_cons, hname]
          by_cases heq : first = name
          · subst heq
            rw [Program.typeItem?_eq_none hfirst]
            simp [hshell]
          · simp [heq]

theorem isTypes_readComponent (htypes : c.env.IsTypes) (aliases : List AliasDef)
    (graph : AliasGraph) (members : List String) :
    (readComponent aliases graph c members).env.IsTypes := by
  rw [readComponent]
  split
  · exact htypes
  · split
    · exact htypes
    · exact htypes.define _ rfl

theorem isTypes_readAliases (htypes : c.env.IsTypes)
    (components : AliasGraph → List (List String)) (aliases : List AliasDef) :
    (c.readAliases components aliases).env.IsTypes := by
  rw [readAliases]
  exact List.foldlRecOn (motive := fun c : Collection => c.env.IsTypes) _ _ htypes
    fun _ h members _ => isTypes_readComponent h _ _ members

theorem readType_declared {item : Item} {decl : Declaration} (hname : item.typeName? = some name)
    (h : item.declaration? c.env = some decl) : c.readType item = c.define name decl := by
  cases item <;> simp_all [Item.declaration?, Item.typeName?, readType]

theorem readType_other {item : Item} (h : item.declaration? c.env = none) :
    c.readType item = c := by
  cases item <;> simp_all [Item.declaration?, readType]

theorem isTypes_readType (htypes : c.env.IsTypes) (item : Item) :
    (c.readType item).env.IsTypes := by
  cases hdecl : item.declaration? c.env with
  | none => rwa [readType_other hdecl]
  | some decl =>
      obtain ⟨name, hname⟩ := Item.typeName?_of_declaration hdecl
      rw [readType_declared hname hdecl]
      exact htypes.define name (Item.isFunction_declaration hdecl)

theorem lookup?_readType {item : Item} (h : item.typeName? ≠ some name) :
    (c.readType item).env.lookup? name = c.env.lookup? name := by
  cases hdecl : item.declaration? c.env with
  | none => rw [readType_other hdecl]
  | some decl =>
      obtain ⟨first, hname⟩ := Item.typeName?_of_declaration hdecl
      have hne : first ≠ name := by
        rintro rfl
        exact h hname
      rw [readType_declared hname hdecl, define, Environment.lookup?_define, if_neg hne]

-- A declaration shows the face of its shell, so reading one type changes nothing for the next.
theorem face?_readType {env : Environment} {item : Item}
    (hfaces : ∀ name, c.env.face? name = env.face? name)
    (hshell : ∀ name, item.typeName? = some name → (item.declaration? env).isSome →
      env.face? name = item.shell?.map Declaration.face) (name : String) :
    (c.readType item).env.face? name = env.face? name := by
  cases hdecl : item.declaration? c.env with
  | none => rw [readType_other hdecl, hfaces]
  | some decl =>
      obtain ⟨first, hname⟩ := Item.typeName?_of_declaration hdecl
      have hsome : (item.declaration? env).isSome := by
        rw [← item.declaration?_congr hfaces, hdecl]
        rfl
      by_cases heq : first = name
      · subst heq
        rw [readType_declared hname hdecl, Environment.face?, define, Environment.lookup?_define,
          if_pos rfl, hshell first hname hsome, Item.face_declaration hdecl, Option.map_some]
      · have hne : item.typeName? ≠ some name := by
          rw [hname]
          exact fun h => heq (Option.some.inj h)
        rw [Environment.face?, lookup?_readType hne]
        exact hfaces name

-- Every type is declared as its item says in the environment from which the reading starts.
theorem lookup?_foldl_readType {env : Environment} (hdistinct : program.Distinct)
    (hfaces : ∀ name, c.env.face? name = env.face? name)
    (hshell : ∀ item ∈ program, ∀ name, item.typeName? = some name →
      (item.declaration? env).isSome → env.face? name = item.shell?.map Declaration.face)
    (name : String) :
    (program.foldl readType c).env.lookup? name =
      ((program.typeItem? name).bind (Item.declaration? env)).or (c.env.lookup? name) := by
  induction program generalizing c with
  | nil => rfl
  | cons item rest ih =>
      obtain ⟨hfirst, hrest⟩ := List.forall_mem_cons.mp hshell
      have hread := ih (c := c.readType item) hdistinct.tail (face?_readType hfaces hfirst) hrest
      have hsame := item.declaration?_congr hfaces
      rw [List.foldl_cons, hread, Program.typeItem?_cons]
      by_cases hname : item.typeName? = some name
      · -- No other item has the name of this one.
        rw [Program.typeItem?_eq_none (hdistinct.not_mem_tail hname), if_pos hname]
        cases hdecl : item.declaration? c.env with
        | none => simp [readType_other hdecl, ← hsame, hdecl]
        | some decl =>
            simp [readType_declared hname hdecl, define, Environment.lookup?_define, ← hsame, hdecl]
      · rw [if_neg hname, lookup?_readType hname]

-- The name of a type cannot also be a function.
theorem readFunction_taken {decl : Declaration} {item : FunctionDef} (hflat : c.env.outer = [])
    (h : c.env.lookup? item.name = some decl) (hkind : decl.isFunction = false) :
    c.readFunction item = c.report (.duplicateDeclaration item.name) (some item.span) := by
  have hlocal : c.env.lookupLocal? item.name = some decl := by
    rw [Environment.lookupLocal?_of_flat hflat, h]
  cases decl with
  | function type => cases hkind
  | _ => simp [readFunction, hlocal]

theorem lookup?_readFunction {decl : Declaration} (hflat : c.env.outer = [])
    (h : c.env.lookup? name = some decl) (hkind : decl.isFunction = false) (item : FunctionDef) :
    (c.readFunction item).env.outer = [] ∧ (c.readFunction item).env.lookup? name = some decl := by
  by_cases heq : item.name = name
  · rw [readFunction_taken hflat (heq ▸ h) hkind]
    exact ⟨hflat, h⟩
  · rw [readFunction]
    split
    · refine ⟨hflat, ?_⟩
      rw [define, Environment.lookup?_define, if_neg heq, h]
    · exact ⟨hflat, h⟩

theorem env_readImpl (c : Collection) (item : ImplDef) : (c.readImpl item).env = c.env := by
  have hreport (problems : List Problem) : (c.reportAll problems (some item.span)).env = c.env :=
    List.foldlRecOn (motive := fun c' : Collection => c'.env = c.env) _ _ rfl fun _ h _ _ => h
  rw [readImpl]
  split
  · exact hreport _
  · exact hreport _

def aliased (finder : ComponentFinder) (program : Program) : Collection :=
  (declareShells {} program).1.readAliases finder program.aliases

def typed (finder : ComponentFinder) (program : Program) : Collection :=
  program.foldl readType (aliased finder program)

section Phases

variable {finder : ComponentFinder} (hdistinct : program.Distinct)

include hdistinct

theorem shells_spec :
    (declareShells {} program).2 = program ∧ (declareShells {} program).1.env.IsTypes ∧
      ∀ name, (declareShells {} program).1.env.lookup? name =
        (program.typeItem? name).bind Item.shell? := by
  obtain ⟨hkept, htypes, hlookup⟩ := declareShells_spec (c := {}) hdistinct
    Environment.isTypes_empty fun _ _ => rfl
  exact ⟨hkept, htypes, fun name => (hlookup name).trans Option.or_none⟩

theorem isTypes_aliased : (aliased finder program).env.IsTypes :=
  isTypes_readAliases (shells_spec hdistinct).2.1 _ _

theorem isTypes_typed : (typed finder program).env.IsTypes :=
  List.foldlRecOn (motive := fun c : Collection => c.env.IsTypes) _ _ (isTypes_aliased hdistinct)
    fun _ h item _ => isTypes_readType h item

-- Reading the aliases leaves the shells of the other types.
theorem face?_aliased {item : Item} (hitem : item ∈ program) (hname : item.typeName? = some name)
    {env : Environment} (hdecl : (item.declaration? env).isSome) :
    (aliased finder program).env.face? name = item.shell?.map Declaration.face := by
  have hfound := (Program.typeItem?_eq_some_iff hdistinct).mpr ⟨hitem, hname⟩
  have hother : name ∉ program.aliases.map AliasDef.name := by
    intro hmem
    obtain ⟨found, hfind, rfl⟩ := List.mem_map.mp hmem
    obtain ⟨other, hother, halias⟩ := List.mem_filterMap.mp hfind
    obtain rfl := Item.eq_alias_of_alias? halias
    have hsame := (Program.typeItem?_eq_some_iff hdistinct).mpr ⟨hother, rfl⟩
    obtain rfl := Option.some.inj (hfound.symm.trans hsame)
    simp [Item.declaration?] at hdecl
  rw [Environment.face?, aliased,
    lookup?_readAliases_unread (Program.nodup_aliases hdistinct) _ (.inl hother),
    (shells_spec hdistinct).2.2, hfound, Option.bind_some]

theorem lookup?_typed (name : String) :
    (typed finder program).env.lookup? name =
      ((program.typeItem? name).bind (Item.declaration? (aliased finder program).env)).or
        ((aliased finder program).env.lookup? name) :=
  lookup?_foldl_readType hdistinct (fun _ => rfl)
    (fun _ hitem _ hname hdecl => face?_aliased hdistinct hitem hname hdecl) name

theorem isSome_aliased (hname : name ∈ program.typeNames) :
    ((aliased finder program).env.lookup? name).isSome := by
  refine List.foldlRecOn (motive := fun c : Collection => (c.env.lookup? name).isSome) _ _ ?_ ?_
  · obtain ⟨item, hitem, hname⟩ := List.mem_filterMap.mp hname
    obtain ⟨shell, hshell, -⟩ := Item.shell?_of_typeName? hname
    rw [(shells_spec hdistinct).2.2, (Program.typeItem?_eq_some_iff hdistinct).mpr ⟨hitem, hname⟩,
      Option.bind_some, hshell]
    rfl
  · intro c hbound members _
    rw [readComponent]
    split
    · exact hbound
    · split
      · exact hbound
      · rw [define, Environment.lookup?_define]
        split
        · rfl
        · exact hbound

variable (finder) in
-- Functions and implementations come last and leave the types as they are.
theorem lookup?_ofProgram (builtins : Bool) (hname : name ∈ program.typeNames) :
    ∃ decl, (ofProgram finder program builtins).env.lookup? name = some decl ∧
      (typed finder program).env.lookup? name = some decl := by
  obtain ⟨hkept, -, -⟩ := shells_spec hdistinct
  obtain ⟨decl, hdecl⟩ : ∃ decl, (typed finder program).env.lookup? name = some decl := by
    rw [lookup?_typed hdistinct]
    have hbound : ((aliased finder program).env.lookup? name).isSome :=
      isSome_aliased hdistinct hname
    rw [← Option.isSome_iff_exists]
    simp [hbound]
  refine ⟨decl, ?_, hdecl⟩
  have htypes : (typed finder program).env.IsTypes := isTypes_typed hdistinct
  have hkind := htypes.kind name decl hdecl
  have hcalled : ∀ items : List FunctionDef,
      (items.foldl readFunction (typed finder program)).env.outer = [] ∧
        (items.foldl readFunction (typed finder program)).env.lookup? name = some decl := by
    intro items
    exact List.foldlRecOn (motive := fun c : Collection =>
      c.env.outer = [] ∧ c.env.lookup? name = some decl) _ _ ⟨htypes.flat, hdecl⟩
      fun _ h item _ => lookup?_readFunction h.1 h.2 hkind item
  have himpls : ∀ (items : List ImplDef) (c : Collection),
      (items.foldl readImpl c).env = c.env := by
    intro items c
    exact List.foldlRecOn (motive := fun c' : Collection => c'.env = c.env) _ _ rfl
      fun _ h item _ => (env_readImpl _ item).trans h
  rw [ofProgram]
  dsimp only
  rw [himpls, hkept]
  cases builtins with
  | false => exact (hcalled _).2
  | true => exact (hcalled _).2

end Phases

section Rearranged

variable {finder finder' : ComponentFinder} (hdistinct : program.Distinct)
  (hperm : (program.filter Item.isType).Perm (other.filter Item.isType))
  (hranked : RankedAliases program.aliases)

include hdistinct hperm hranked

theorem lookup?_aliased_perm (name : String) :
    (aliased finder program).env.lookup? name = (aliased finder' other).env.lookup? name := by
  have hdistinct' := Program.distinct_perm hperm hdistinct
  refine readAliases_perm (Program.nodup_aliases hdistinct) (Program.aliases_perm hperm) hranked
    (fun name => ?_) name
  rw [(shells_spec hdistinct).2.2, (shells_spec hdistinct').2.2,
    Program.typeItem?_perm hperm hdistinct]

theorem lookup?_typed_perm (name : String) :
    (typed finder program).env.lookup? name = (typed finder' other).env.lookup? name := by
  have hdistinct' := Program.distinct_perm hperm hdistinct
  have haliased (name : String) :
      (aliased finder program).env.lookup? name = (aliased finder' other).env.lookup? name :=
    lookup?_aliased_perm hdistinct hperm hranked name
  have hdecl : Item.declaration? (aliased finder program).env =
      Item.declaration? (aliased finder' other).env := by
    funext item
    exact item.declaration?_congr fun name => congrArg (Option.map Declaration.face) (haliased name)
  rw [lookup?_typed hdistinct, lookup?_typed hdistinct', Program.typeItem?_perm hperm hdistinct,
    haliased, hdecl]

end Rearranged

end Collection

section Ranked

open TypeExpr

mutual
-- A target names all that is looked up for it, apart from the type of errors.
theorem TypeExpr.mem_typeNames_of_consulted {generics : List String} {name : String} :
    (e : TypeExpr) → name ∈ e.consulted generics → name ∈ e.typeNames ∨ name = "Error"
  | .wildcard _, h => by simp [consulted] at h
  | .simple other _, h => by
      simp only [consulted] at h
      split at h
      · exact .inl h
      · cases h
  | .generic base args _, h => by
      rcases List.mem_append.mp h with hbase | hargs
      · exact (mem_typeNames_of_consulted base hbase).imp_left (List.mem_append_left _)
      · exact (mem_allTypeNames_of_consulted args hargs).imp_left (List.mem_append_right _)
  | .nullable inner _, h => mem_typeNames_of_consulted inner h
  | .result inner _, h => by
      rcases List.mem_append.mp h with hinner | herror
      · exact mem_typeNames_of_consulted inner hinner
      · exact .inr (List.mem_singleton.mp herror)
  | .function params returns _, h => by
      rcases List.mem_append.mp h with hparams | hreturns
      · exact (mem_allTypeNames_of_consulted params hparams).imp_left (List.mem_append_left _)
      · exact (mem_typeNames_of_consulted returns hreturns).imp_left (List.mem_append_right _)
  | .union members _, h => mem_allTypeNames_of_consulted members h
theorem TypeExpr.mem_allTypeNames_of_consulted {generics : List String} {name : String} :
    (es : List TypeExpr) → name ∈ allConsulted generics es →
      name ∈ allTypeNames es ∨ name = "Error"
  | [], h => by cases h
  | e :: es, h => by
      rcases List.mem_append.mp h with hfirst | hrest
      · exact (mem_typeNames_of_consulted e hfirst).imp_left (List.mem_append_left _)
      · exact (mem_allTypeNames_of_consulted es hrest).imp_left (List.mem_append_right _)
end

-- Aliases are ranked if none is the type of errors and none is a bound of another.
theorem rankedAliases_of_targets {aliases : List AliasDef}
    (hnodup : (aliases.map AliasDef.name).Nodup) (herror : "Error" ∉ aliases.map AliasDef.name)
    (hbounds : ∀ item ∈ aliases, ∀ param ∈ item.generics, ∀ bound ∈ param.bounds,
      ∀ name ∈ bound.consulted (TypeParam.names item.generics), name ∉ aliases.map AliasDef.name) :
    RankedAliases aliases := by
  intro item hitem name hconsulted halias _ _ _
  rcases List.mem_append.mp hconsulted with hbound | htarget
  · obtain ⟨param, hparam, hbound⟩ := List.mem_flatMap.mp hbound
    obtain ⟨bound, hmem, hname⟩ := List.mem_flatMap.mp hbound
    exact absurd halias (hbounds item hitem param hparam bound hmem name hname)
  · refine .inl (.single ((AliasGraph.mentions_ofDefs hnodup).mpr ⟨item, hitem, rfl, ?_, halias⟩))
    refine (item.target.mem_typeNames_of_consulted htarget).resolve_right ?_
    rintro rfl
    exact herror halias

end Ranked

namespace Catalogue

def named (name : String) : TypeExpr := .simple name default

def arrayOf (element : String) : TypeExpr := .generic (named "Array") [named element] default

def aliasOf (name : String) (target : TypeExpr) : Item := .alias ⟨name, [], target, [], default⟩

def row : Item := aliasOf "Row" (arrayOf "i32")

def grid : Item := aliasOf "Grid" (arrayOf "Row")

-- What comes of loading a grid.
def loaded : Item := aliasOf "Loaded" (.result (named "Grid") default)

def board : Item := .struct ⟨"Board", [], [("cells", named "Grid")], [], default⟩

def failure : Item := .struct ⟨"Error", [], [("text", named "String")], [], default⟩

def hash : Item := .interface ⟨"Hash", [], none, [], [], default⟩

def load : Item :=
  .function ⟨"load", [], [⟨"path", some (named "String")⟩], some (named "Loaded"), [], true,
    default⟩

def program : Program := [loaded, grid, board, load, row, failure, hash]

def reordered : Program := [hash, failure, row, load, board, grid, loaded]

def fallible : Item := aliasOf "Fallible" (.result (named "i32") default)

def errorText : Item := aliasOf "Error" (named "String")

def key : Item := aliasOf "Key" (named "Hash")

-- An array of a parameter that is bounded by an alias.
def keys : Item := .alias ⟨"Keys", [⟨"K", [named "Key"]⟩], arrayOf "K", [], default⟩

end Catalogue

open Catalogue in
-- An alias may be looked up that the target does not name: as the type of errors of a result, or
-- as a bound. If it comes later, it is still unknown then.
theorem unnamed_alias_read_too_late :
    Program.Distinct [errorText, fallible] ∧
      ((Collection.ofProgram depthFirst [errorText, fallible] false).env.lookup?
          "Fallible").map Declaration.toTy =
        some (.alias "Fallible" (.anyOf [.i32, .alias "Error" .string])) ∧
      ((Collection.ofProgram depthFirst [fallible, errorText] false).env.lookup?
          "Fallible").map Declaration.toTy =
        some (.alias "Fallible" (.anyOf [.i32, .alias "Error" .unknown])) ∧
      Program.Distinct [hash, key, keys] ∧
      (Collection.ofProgram depthFirst [hash, key, keys] false).env.lookup? "Keys" =
        some (.alias ⟨"Keys", [⟨"K", [.alias "Key" (.declared .interface "Hash" [])]⟩],
          .unary .array (.param "K"), some default⟩) ∧
      (Collection.ofProgram depthFirst [hash, keys, key] false).env.lookup? "Keys" =
        some (.alias ⟨"Keys", [⟨"K", [.alias "Key" .unknown]⟩],
          .unary .array (.param "K"), some default⟩) := by
  refine ⟨?_, ?_, ?_, ?_, ?_, ?_⟩ <;> decide +kernel

-- Programs with the same types in another order, whatever else they hold and however the
-- components of their aliases are found, bind every type to one and the same declaration.
theorem types_in_any_order {finder finder' : ComponentFinder} {program other : Program}
    {name : String} (hdistinct : program.Distinct)
    (hperm : (program.filter Item.isType).Perm (other.filter Item.isType))
    (hranked : RankedAliases program.aliases) (builtins builtins' : Bool)
    (hname : name ∈ program.typeNames) :
    ∃ decl, (Collection.ofProgram finder program builtins).env.lookup? name = some decl ∧
      (Collection.ofProgram finder' other builtins').env.lookup? name = some decl := by
  have hdistinct' := Program.distinct_perm hperm hdistinct
  have hname' : name ∈ other.typeNames := (Program.typeNames_perm hperm).mem_iff.mp hname
  obtain ⟨decl, hfinal, htyped⟩ := Collection.lookup?_ofProgram finder hdistinct builtins hname
  obtain ⟨decl', hfinal', htyped'⟩ :=
    Collection.lookup?_ofProgram finder' hdistinct' builtins' hname'
  obtain rfl : decl = decl' := by
    rw [Collection.lookup?_typed_perm hdistinct hperm hranked, htyped'] at htyped
    exact (Option.some.inj htyped).symm
  exact ⟨decl, hfinal, hfinal'⟩

theorem catalogue_reordered :
    Program.Distinct Catalogue.program ∧
      (Catalogue.program.filter Item.isType).Perm (Catalogue.reordered.filter Item.isType) ∧
      RankedAliases (Program.aliases Catalogue.program) ∧
      ∃ decl,
        (Collection.ofProgram depthFirst Catalogue.program true).env.lookup? "Loaded" = some decl ∧
        (Collection.ofProgram depthFirst Catalogue.reordered true).env.lookup? "Loaded" =
          some decl := by
  have hdistinct : Program.Distinct Catalogue.program := by decide +kernel
  have hperm : (Catalogue.program.filter Item.isType).Perm
      (Catalogue.reordered.filter Item.isType) := by
    decide +kernel
  have hranked : RankedAliases (Program.aliases Catalogue.program) :=
    rankedAliases_of_targets (Program.nodup_aliases hdistinct) (by decide +kernel)
      (by decide +kernel)
  exact ⟨hdistinct, hperm, hranked,
    types_in_any_order hdistinct hperm hranked true true (by decide +kernel)⟩

end Conformance
