import Conformance.Proofs.AliasCycles

namespace Conformance

-- Names are declared in several phases: shells, aliases, types and functions. Whatever the phases
-- bind a name to, of several types of one name it is the first, and each of the others is
-- reported. A function of such a name is reported too.

namespace Item

def kindName : Item → String
  | .struct _ => "struct"
  | .union _ => "union"
  | .interface _ => "interface"
  | .alias _ => "type alias"
  | .function _ => "function"
  | .impl _ => "implementation"

-- The names of the parameters that an item is written with.
def paramNames : Item → List String
  | .struct item => TypeParam.names item.generics
  | .union item => TypeParam.names item.generics
  | .interface item => TypeParam.names item.generics
  | .alias item => TypeParam.names item.generics
  | .function item => TypeParam.names item.generics
  | .impl item => TypeParam.names item.generics

end Item

namespace Declaration

-- The name that a type is declared with.
def typeName? : Declaration → Option String
  | .struct decl => some decl.name
  | .union decl => some decl.name
  | .interface decl => some decl.name
  | .alias decl => some decl.name
  | .function _ => none

def span? : Declaration → Option Span
  | .struct decl => decl.span
  | .union decl => decl.span
  | .interface decl => decl.span
  | .alias decl => decl.span
  | .function _ => none

-- A declaration that was made for an item, be it complete or only a shell.
structure IsOf (decl : Declaration) (item : Item) : Prop where
  kind : decl.kindName = item.kindName
  name : decl.typeName? = item.typeName?
  span : decl.span? = some item.span
  params : decl.params = item.paramNames

end Declaration

namespace Item

variable {item : Item} {decl : Declaration}

theorem isOf_shell (h : item.shell? = some decl) : decl.IsOf item := by
  cases item with
  | function _ => cases h
  | impl _ => cases h
  | _ =>
      obtain rfl := Option.some.inj h
      exact ⟨rfl, rfl, rfl, names_openParams _⟩

theorem isOf_declaration {env : Environment} (h : item.declaration? env = some decl) :
    decl.IsOf item := by
  cases item with
  | struct _ | union _ | interface _ =>
      obtain rfl := Option.some.inj h
      exact ⟨rfl, rfl, rfl, names_resolveParams _ _⟩
  | _ => cases h

theorem isOf_alias (item : AliasDef) (env : Environment) :
    (Declaration.alias (item.elaborate env)).IsOf (.alias item) :=
  ⟨rfl, rfl, rfl, names_resolveParams _ _⟩

end Item

-- What the name of a function can be bound to: one function or an overload set.
def Ty.isCallable : Ty → Bool
  | .function _ => true
  | .overload _ => true
  | _ => false

namespace Program

variable {program : Program} {name : String}

theorem isSome_typeItem?_iff : (program.typeItem? name).isSome ↔ name ∈ program.typeNames := by
  simp [typeItem?, typeNames, List.find?_isSome, List.mem_filterMap]

theorem typeItem?_append (first second : Program) (name : String) :
    typeItem? (first ++ second) name = (first.typeItem? name).or (second.typeItem? name) :=
  List.find?_append

def functions (program : Program) : List FunctionDef := program.filterMap Item.function?

-- What is reported of an item that comes after others.
def clash? (earlier : Program) (item : Item) : Option Diagnostic :=
  item.typeName?.bind fun name =>
    if name ∈ earlier.typeNames then some ⟨.duplicateDeclaration name, some item.span⟩ else none

-- The reports on types whose names are taken by a type before them.
def typeClashes (program : Program) : List Diagnostic :=
  (List.range program.length).filterMap fun place =>
    program[place]?.bind (clash? (program.take place))

-- The reports on functions that have the name of a type.
def functionClashes (program : Program) : List Diagnostic :=
  (program.functions.filter fun item => item.name ∈ program.typeNames).map fun item =>
    ⟨.duplicateDeclaration item.name, some item.span⟩

-- Whether the item at a place is a type whose name is taken by a type before it.
def isRepeated (program : Program) (place : Nat) : Bool :=
  (program[place]?.bind Item.typeName?).any fun name =>
    name ∈ Program.typeNames (program.take place)

theorem clash?_congr {earlier other : Program}
    (h : ∀ name, name ∈ earlier.typeNames ↔ name ∈ other.typeNames) (item : Item) :
    clash? earlier item = clash? other item := by
  simp only [clash?, h]

theorem typeClashes_append_singleton (program : Program) (item : Item) :
    typeClashes (program ++ [item]) = program.typeClashes ++ (clash? program item).toList := by
  rw [typeClashes, List.length_append, List.length_singleton, List.range_succ,
    List.filterMap_append]
  congr 1
  · refine List.filterMap_congr fun place hplace => ?_
    have hplace : place < program.length := List.mem_range.mp hplace
    rw [List.getElem?_append_left hplace, List.take_append_of_le_length (Nat.le_of_lt hplace)]
  · simp only [List.filterMap_cons, List.filterMap_nil, List.getElem?_concat_length,
      Option.bind_some, List.take_left]
    cases clash? program item <;> rfl

theorem length_typeClashes (program : Program) :
    program.typeClashes.length = (List.range program.length).countP program.isRepeated := by
  rw [typeClashes, List.length_filterMap_eq_countP]
  refine List.countP_congr fun place _ => ?_
  rw [isRepeated]
  cases program[place]? with
  | none => rfl
  | some item =>
      simp only [Option.bind_some, clash?]
      cases item.typeName? with
      | none => rfl
      | some name => by_cases h : name ∈ typeNames (program.take place) <;> simp [h]

theorem length_functionClashes (program : Program) :
    program.functionClashes.length =
      program.functions.countP fun item => item.name ∈ program.typeNames := by
  rw [functionClashes, List.length_map, List.countP_eq_length_filter]

end Program

namespace Collection

variable {finder : ComponentFinder} {c : Collection} {program : Program} {name : String}

section Shells

theorem declareShells_append (c : Collection) (first second : Program) :
    c.declareShells (first ++ second) =
      (((c.declareShells first).1.declareShells second).1,
        (c.declareShells first).2 ++ ((c.declareShells first).1.declareShells second).2) := by
  induction first generalizing c with
  | nil => rfl
  | cons item rest ih =>
      rw [List.cons_append]
      cases hname : item.typeName? with
      | none => simp only [declareShells_other hname, ih, List.cons_append]
      | some name =>
          obtain ⟨shell, hshell, -⟩ := Item.shell?_of_typeName? hname
          cases htaken : c.env.lookupLocal? name with
          | some decl =>
              simp only [declareShells_taken hname (Option.isSome_of_eq_some htaken), ih]
          | none => simp only [declareShells_type hname hshell htaken, ih, List.cons_append]

theorem lookupLocal?_declareShells (program : Program) (name : String) :
    (declareShells {} program).1.env.lookupLocal? name =
      ((accepted program).typeItem? name).bind Item.shell? := by
  obtain ⟨-, -, -, hsame, -⟩ := declareShells_kept {} {} program rfl
  obtain ⟨-, htypes, hlookup⟩ := shells_spec (distinct_accepted program)
  rw [hsame]
  exact (Environment.lookupLocal?_of_flat htypes.flat name).trans (hlookup name)

-- One more item is reported if its name is taken, and kept otherwise.
theorem declareShells_last (program : Program) (item : Item) :
    clashes (program ++ [item]) =
        clashes program ++ (Program.clash? (accepted program) item).toList ∧
      accepted (program ++ [item]) =
        accepted program ++
          if (Program.clash? (accepted program) item).isSome then [] else [item] := by
  have hclashes : clashes (program ++ [item]) =
      ((declareShells {} program).1.declareShells [item]).1.diagnostics := by
    rw [clashes, declareShells_append]
  have haccepted : accepted (program ++ [item]) =
      accepted program ++ ((declareShells {} program).1.declareShells [item]).2 := by
    rw [accepted, declareShells_append]
    rfl
  rw [hclashes, haccepted]
  cases hname : item.typeName? with
  | none =>
      rw [declareShells_other hname, Program.clash?, hname]
      exact ⟨(List.append_nil _).symm, rfl⟩
  | some name =>
      have hlocal := lookupLocal?_declareShells program name
      by_cases htaken : name ∈ (accepted program).typeNames
      · obtain ⟨first, hfirst⟩ := Option.isSome_iff_exists.mp
          (Program.isSome_typeItem?_iff.mpr htaken)
        have hfound := (Program.typeItem?_eq_some_iff (distinct_accepted program)).mp hfirst
        obtain ⟨shell, hshell, -⟩ := Item.shell?_of_typeName? hfound.2
        rw [hfirst, Option.bind_some, hshell] at hlocal
        rw [declareShells_taken hname (Option.isSome_of_eq_some hlocal), Program.clash?, hname,
          Option.bind_some, if_pos htaken]
        exact ⟨rfl, rfl⟩
      · obtain ⟨shell, hshell, -⟩ := Item.shell?_of_typeName? hname
        rw [Program.typeItem?_eq_none htaken] at hlocal
        rw [declareShells_type hname hshell hlocal, Program.clash?, hname, Option.bind_some,
          if_neg htaken]
        exact ⟨(List.append_nil _).symm, rfl⟩

-- The first type of a name is kept.
theorem typeItem?_accepted (program : Program) (name : String) :
    (accepted program).typeItem? name = program.typeItem? name := by
  induction program using List.reverseRecOn with
  | nil => rfl
  | append_singleton program item ih =>
      rw [(declareShells_last program item).2, Program.typeItem?_append, Program.typeItem?_append,
        ih]
      split
      · rename_i hclash
        -- What is left out has the name of a type before it.
        obtain ⟨d, hd⟩ := Option.isSome_iff_exists.mp hclash
        obtain ⟨taken, hname, hreport⟩ := Option.bind_eq_some_iff.mp hd
        split at hreport
        · rename_i htaken
          by_cases heq : taken = name
          · subst heq
            rw [← Program.isSome_typeItem?_iff, ih] at htaken
            obtain ⟨first, hfirst⟩ := Option.isSome_iff_exists.mp htaken
            rw [hfirst]
            rfl
          · have hother : name ∉ Program.typeNames [item] := by
              simp [Program.typeNames, hname, Ne.symm heq]
            rw [Program.typeItem?_eq_none hother]
            rfl
        · cases hreport
      · rfl

theorem mem_typeNames_accepted :
    name ∈ (accepted program).typeNames ↔ name ∈ program.typeNames := by
  rw [← Program.isSome_typeItem?_iff, typeItem?_accepted, Program.isSome_typeItem?_iff]

theorem clashes_eq (program : Program) : clashes program = program.typeClashes := by
  induction program using List.reverseRecOn with
  | nil => rfl
  | append_singleton program item ih =>
      rw [(declareShells_last program item).1, ih, Program.typeClashes_append_singleton,
        Program.clash?_congr fun _ => mem_typeNames_accepted]

end Shells

section Types

-- Every type of a program is bound to a declaration of its item.
def Declares (c : Collection) (program : Program) : Prop :=
  ∀ name item, program.typeItem? name = some item →
    ∃ decl, c.env.lookup? name = some decl ∧ decl.IsOf item

theorem Declares.define (h : c.Declares program) (hdistinct : program.Distinct) {item : Item}
    {decl : Declaration} (hitem : item ∈ program) (hname : item.typeName? = some name)
    (hdecl : decl.IsOf item) : (c.define name decl).Declares program := by
  intro other found hfound
  rw [Collection.define, Environment.lookup?_define]
  split
  · rename_i heq
    subst heq
    rw [(Program.typeItem?_eq_some_iff hdistinct).mpr ⟨hitem, hname⟩] at hfound
    obtain rfl := Option.some.inj hfound
    exact ⟨decl, rfl, hdecl⟩
  · exact h other found hfound

theorem declares_shells (hdistinct : program.Distinct) :
    (declareShells {} program).1.Declares program := by
  intro name item hitem
  obtain ⟨-, hname⟩ := (Program.typeItem?_eq_some_iff hdistinct).mp hitem
  obtain ⟨shell, hshell, -⟩ := Item.shell?_of_typeName? hname
  refine ⟨shell, ?_, Item.isOf_shell hshell⟩
  rw [(shells_spec hdistinct).2.2, hitem, Option.bind_some, hshell]

-- An alias that leads back to itself keeps its shell, and the others are declared anew.
theorem Declares.readComponent (h : c.Declares program) (hdistinct : program.Distinct)
    (graph : AliasGraph) (members : List String) :
    (readComponent program.aliases graph c members).Declares program := by
  rw [Collection.readComponent]
  split
  · exact h
  · rename_i item hfind
    split
    · exact h
    · obtain ⟨found, hfound, halias⟩ := List.mem_filterMap.mp (List.mem_of_find?_eq_some hfind)
      obtain rfl := Item.eq_alias_of_alias? halias
      exact h.define hdistinct hfound rfl (Item.isOf_alias item c.env)

theorem Declares.readType (h : c.Declares program) (hdistinct : program.Distinct) {item : Item}
    (hitem : item ∈ program) : (c.readType item).Declares program := by
  cases hdecl : item.declaration? c.env with
  | none => rwa [readType_other hdecl]
  | some decl =>
      obtain ⟨name, hname⟩ := Item.typeName?_of_declaration hdecl
      rw [readType_declared hname hdecl]
      exact h.define hdistinct hitem hname (Item.isOf_declaration hdecl)

theorem declares_typed (hdistinct : program.Distinct) :
    (typed finder program).Declares program := by
  have haliased : (aliased finder program).Declares program :=
    List.foldlRecOn (motive := fun c : Collection => c.Declares program) _ _
      (declares_shells hdistinct) fun _ h members _ => h.readComponent hdistinct _ members
  exact List.foldlRecOn (motive := fun c : Collection => c.Declares program) _ _ haliased
    fun _ h item hitem => h.readType hdistinct hitem

end Types

section Functions

-- A name that is free, or that functions have already, takes one more.
theorem readFunction_free {item : FunctionDef} (hflat : c.env.outer = [])
    (h : c.env.lookup? item.name = none ∨
      ∃ type, c.env.lookup? item.name = some (.function type) ∧ type.isCallable = true) :
    ∃ type, c.readFunction item = c.define item.name (.function type) ∧ type.isCallable = true := by
  rw [← Environment.lookupLocal?_of_flat hflat] at h
  rcases h with hfree | ⟨bound, hbound, hcallable⟩
  · exact ⟨.function (item.elaborate c.env), by simp [readFunction, hfree, mergeFunction], rfl⟩
  · obtain ⟨type, hmerged, htype⟩ :
        ∃ type, mergeFunction (some bound) (item.elaborate c.env) = some type ∧
          type.isCallable = true := by
      cases bound with
      | function current =>
          simp only [mergeFunction]
          split
          · exact ⟨_, rfl, rfl⟩
          · exact ⟨_, rfl, rfl⟩
      | overload sigs =>
          simp only [mergeFunction]
          split
          · exact ⟨_, rfl, rfl⟩
          · exact ⟨_, rfl, rfl⟩
      | _ => cases hcallable
    exact ⟨type, by simp [readFunction, hbound, hmerged], htype⟩

-- What comes of reading functions after the types.
structure AddsFunctions (c c' : Collection) (items : List FunctionDef) : Prop where
  flat : c'.env.outer = []
  types : ∀ name decl, c.env.lookup? name = some decl → c'.env.lookup? name = some decl
  functions : ∀ name ∈ items.map FunctionDef.name, c.env.lookup? name = none →
    ∃ type, c'.env.lookup? name = some (.function type) ∧ type.isCallable = true
  others : ∀ name, name ∉ items.map FunctionDef.name → c'.env.lookup? name = c.env.lookup? name
  reports : c'.diagnostics = c.diagnostics ++
    (items.filter fun item => (c.env.lookup? item.name).isSome).map fun item =>
      ⟨.duplicateDeclaration item.name, some item.span⟩

theorem AddsFunctions.step {c' : Collection} {items : List FunctionDef} (htypes : c.env.IsTypes)
    (h : AddsFunctions c c' items) (item : FunctionDef) :
    AddsFunctions c (c'.readFunction item) (items ++ [item]) := by
  have hnames (name : String) : name ∈ (items ++ [item]).map FunctionDef.name ↔
      name ∈ items.map FunctionDef.name ∨ name = item.name := by
    rw [List.map_append, List.mem_append, List.map_singleton, List.mem_singleton]
  cases hlookup : c.env.lookup? item.name with
  | some decl =>
      rw [readFunction_taken h.flat (h.types _ _ hlookup) (htypes.kind _ _ hlookup)]
      refine ⟨h.flat, h.types, fun name hname hnone => ?_, fun name hname => ?_, ?_⟩
      · refine h.functions name (((hnames name).mp hname).resolve_right ?_) hnone
        rintro rfl
        rw [hlookup] at hnone
        cases hnone
      · exact h.others name fun hmem => hname ((hnames name).mpr (.inl hmem))
      · simp [report, h.reports, hlookup]
  | none =>
      have hfree : c'.env.lookup? item.name = none ∨
          ∃ type, c'.env.lookup? item.name = some (.function type) ∧ type.isCallable = true := by
        by_cases hmem : item.name ∈ items.map FunctionDef.name
        · exact .inr (h.functions _ hmem hlookup)
        · exact .inl ((h.others _ hmem).trans hlookup)
      obtain ⟨type, hread, htype⟩ := readFunction_free h.flat hfree
      rw [hread]
      refine ⟨h.flat, fun name decl hdecl => ?_, fun name hname hnone => ?_,
        fun name hname => ?_, ?_⟩
      · have hne : item.name ≠ name := by
          rintro rfl
          rw [hlookup] at hdecl
          cases hdecl
        rw [define, Environment.lookup?_define, if_neg hne, h.types name decl hdecl]
      · rw [define, Environment.lookup?_define]
        split
        · exact ⟨type, rfl, htype⟩
        · rename_i hne
          exact h.functions name (((hnames name).mp hname).resolve_right (Ne.symm hne)) hnone
      · have hother := not_or.mp (mt (hnames name).mpr hname)
        rw [define, Environment.lookup?_define, if_neg (Ne.symm hother.2), h.others name hother.1]
      · simp [define, h.reports, hlookup]

theorem addsFunctions_foldl (htypes : c.env.IsTypes) (items : List FunctionDef) :
    AddsFunctions c (items.foldl readFunction c) items := by
  induction items using List.reverseRecOn with
  | nil =>
      exact ⟨htypes.flat, fun _ _ h => h, fun _ h => absurd h List.not_mem_nil, fun _ _ => rfl,
        (List.append_nil _).symm⟩
  | append_singleton items item ih =>
      rw [List.foldl_append, List.foldl_cons, List.foldl_nil]
      exact ih.step htypes item

theorem addsFunctions_called (hdistinct : program.Distinct) :
    AddsFunctions (typed finder program) (called finder program) program.functions :=
  addsFunctions_foldl (isTypes_typed hdistinct) _

end Functions

section Outcome

variable (builtins : Bool)

theorem isSome_typed_iff (hdistinct : program.Distinct) :
    ((typed finder program).env.lookup? name).isSome ↔ name ∈ program.typeNames := by
  constructor
  · intro hbound
    by_contra hname
    rw [lookup?_typed_other hdistinct hname] at hbound
    cases hbound
  · intro hname
    obtain ⟨item, hitem⟩ := Option.isSome_iff_exists.mp (Program.isSome_typeItem?_iff.mpr hname)
    obtain ⟨decl, hdecl, -⟩ := declares_typed hdistinct name item hitem
    rw [hdecl]
    rfl

theorem lookup?_typed_accepted (hname : name ∉ program.typeNames) :
    (typed finder (accepted program)).env.lookup? name = none :=
  lookup?_typed_other (distinct_accepted program) (mt mem_typeNames_accepted.mp hname)

theorem functions_accepted (program : Program) :
    (accepted program).functions = program.functions := by
  refine filterMap_accepted (fun item htype => ?_) program
  cases item with
  | function _ => cases htype
  | _ => rfl

theorem exists_declaration {item : Item} (hitem : program.typeItem? name = some item) :
    ∃ decl, (ofProgram finder program builtins).env.lookup? name = some decl ∧ decl.IsOf item := by
  have hdistinct := distinct_accepted program
  rw [← typeItem?_accepted] at hitem
  obtain ⟨decl, hdecl, hof⟩ := declares_typed hdistinct name item hitem
  rw [env_ofProgram]
  exact ⟨decl, (addsFunctions_called hdistinct).types name decl hdecl, hof⟩

theorem exists_function (hname : name ∉ program.typeNames)
    (hfunction : name ∈ program.functions.map FunctionDef.name) :
    ∃ type, (ofProgram finder program builtins).env.lookup? name = some (.function type) ∧
      type.isCallable = true := by
  rw [← functions_accepted] at hfunction
  rw [env_ofProgram]
  exact (addsFunctions_called (distinct_accepted program)).functions name hfunction
    (lookup?_typed_accepted hname)

theorem lookup?_undeclared (hname : name ∉ program.typeNames)
    (hfunction : name ∉ program.functions.map FunctionDef.name) :
    (ofProgram finder program builtins).env.lookup? name = none := by
  rw [← functions_accepted] at hfunction
  rw [env_ofProgram, (addsFunctions_called (distinct_accepted program)).others name hfunction]
  exact lookup?_typed_accepted hname

theorem diagnostics_called (finder : ComponentFinder) (program : Program) :
    (called finder (accepted program)).diagnostics =
      cycleReports finder (accepted program).aliases ++ program.functionClashes := by
  have hdistinct := distinct_accepted program
  rw [(addsFunctions_called hdistinct).reports, diagnostics_typed hdistinct, functions_accepted,
    Program.functionClashes]
  congr 2
  refine List.filter_congr fun item _ => ?_
  rw [Bool.eq_iff_iff, isSome_typed_iff hdistinct, mem_typeNames_accepted, decide_eq_true_iff]

end Outcome

end Collection

-- Whether a diagnostic is about a name that is taken.
def Diagnostic.isDuplicate (d : Diagnostic) : Bool :=
  match d.problem with
  | .duplicateDeclaration _ => true
  | _ => false

theorem Diagnostic.problem_of_isDuplicate {d : Diagnostic} (h : d.isDuplicate = true) :
    ∃ name, d.problem = .duplicateDeclaration name := by
  rw [isDuplicate] at h
  split at h
  · exact ⟨_, ‹_›⟩
  · cases h

-- Taken names are reported where types are declared and where functions are read, and nowhere else.
theorem Collection.filter_isDuplicate (finder : ComponentFinder) (program : Program)
    (builtins : Bool) :
    (ofProgram finder program builtins).diagnostics.filter Diagnostic.isDuplicate =
      program.typeClashes ++ program.functionClashes := by
  have hclashes : (clashes program).filter Diagnostic.isDuplicate = program.typeClashes := by
    rw [← clashes_eq]
    refine List.filter_eq_self.mpr fun d hd => ?_
    obtain ⟨name, hname⟩ := mem_clashes hd
    rw [Diagnostic.isDuplicate, hname]
  have hcycles (aliases : List AliasDef) :
      (cycleReports finder aliases).filter Diagnostic.isDuplicate = [] := by
    refine List.filter_eq_nil_iff.mpr fun d hd => ?_
    obtain ⟨names, hproblem⟩ := d.problem_of_isCycle (isCycle_of_mem_cycleReports hd)
    simp [Diagnostic.isDuplicate, hproblem]
  have hfunctions : program.functionClashes.filter Diagnostic.isDuplicate =
      program.functionClashes := by
    refine List.filter_eq_self.mpr fun d hd => ?_
    obtain ⟨item, -, rfl⟩ := List.mem_map.mp hd
    rfl
  have hkind (d : Diagnostic) (hd : d.isDuplicate = true) :
      d.problem.isOfBlock = false ∧ d.problem.isOfMethod = false := by
    obtain ⟨name, hproblem⟩ := d.problem_of_isDuplicate hd
    rw [hproblem]
    exact ⟨rfl, rfl⟩
  rw [filter_diagnostics hkind, diagnostics_called, List.filter_append, hclashes, hcycles,
    hfunctions, List.nil_append]

-- Of several types of one name the first is declared, and functions take the names that no type
-- has. Nothing else is declared. Every other type of a name that is taken is reported once, and so
-- is every function of such a name.
theorem first_declaration_wins (finder : ComponentFinder) (program : Program) (builtins : Bool) :
    (∀ name item, program.typeItem? name = some item →
        ∃ decl, (Collection.ofProgram finder program builtins).env.lookup? name = some decl ∧
          decl.IsOf item) ∧
      (∀ name, name ∉ program.typeNames → name ∈ program.functions.map FunctionDef.name →
        ∃ type,
          (Collection.ofProgram finder program builtins).env.lookup? name =
            some (.function type) ∧ type.isCallable = true) ∧
      (∀ name, name ∉ program.typeNames → name ∉ program.functions.map FunctionDef.name →
        (Collection.ofProgram finder program builtins).env.lookup? name = none) ∧
      (Collection.ofProgram finder program builtins).diagnostics.filter Diagnostic.isDuplicate =
        program.typeClashes ++ program.functionClashes ∧
      (Collection.ofProgram finder program builtins).diagnostics.countP Diagnostic.isDuplicate =
        (List.range program.length).countP program.isRepeated +
          program.functions.countP fun item => item.name ∈ program.typeNames := by
  have hreports := Collection.filter_isDuplicate finder program builtins
  refine ⟨fun name item => Collection.exists_declaration builtins,
    fun name => Collection.exists_function builtins,
    fun name => Collection.lookup?_undeclared builtins, hreports, ?_⟩
  rw [List.countP_eq_length_filter, hreports, List.length_append, Program.length_typeClashes,
    Program.length_functionClashes]

namespace Redeclared

open Catalogue

def point : Item :=
  .struct ⟨"Point", [⟨"T", [named "Show"]⟩], [("x", named "T")], [], ⟨20, 40, none⟩⟩

-- Another type of the same name.
def index : Item := .alias ⟨"Point", [], named "i32", [], ⟨60, 70, none⟩⟩

def function (name type : String) (span : Span) : Item :=
  .function ⟨name, [], [⟨"x", some (named type)⟩], none, [], true, span⟩

def program : Program :=
  [function "Point" "f64" ⟨0, 10, none⟩, point, aliasOf "Loop" (arrayOf "Loop"),
    function "show" "Point" ⟨40, 50, none⟩, index, function "show" "f64" ⟨80, 90, none⟩]

end Redeclared

open Redeclared in
-- The struct is declared, and both the alias and the function of its name are reported. An alias
-- that leads back to itself is declared as well.
theorem point_is_the_struct :
    Program.typeItem? program "Point" = some point ∧
      (∃ decl, (Collection.ofProgram depthFirst program true).env.lookup? "Point" = some decl ∧
        decl.IsOf point) ∧
      (∃ decl, (Collection.ofProgram depthFirst program true).env.lookup? "Loop" = some decl ∧
        decl.IsOf (Catalogue.aliasOf "Loop" (Catalogue.arrayOf "Loop"))) ∧
      (∃ type,
        (Collection.ofProgram depthFirst program true).env.lookup? "show" =
          some (.function type) ∧ type.isCallable = true) ∧
      (Collection.ofProgram depthFirst program true).env.lookup? "Show" = none ∧
      (Collection.ofProgram depthFirst program true).diagnostics.filter Diagnostic.isDuplicate =
        [⟨.duplicateDeclaration "Point", some ⟨60, 70, none⟩⟩,
          ⟨.duplicateDeclaration "Point", some ⟨0, 10, none⟩⟩] ∧
      (Collection.ofProgram depthFirst program true).diagnostics.countP Diagnostic.isDuplicate =
        1 + 1 := by
  obtain ⟨htypes, hfunctions, hothers, hreports, hcount⟩ :=
    first_declaration_wins depthFirst program true
  have hpoint : Program.typeItem? program "Point" = some point := by decide +kernel
  refine ⟨hpoint, htypes "Point" point hpoint, htypes "Loop" _ (by decide +kernel),
    hfunctions "show" (by decide +kernel) (by decide +kernel),
    hothers "Show" (by decide +kernel) (by decide +kernel), hreports.trans (by decide +kernel),
    hcount.trans (by decide +kernel)⟩

end Conformance
