import Conformance.Proofs.DeclarationOrder

namespace Conformance

namespace Collection

-- What comes of reading a program, whatever its names: types of names that are taken are
-- reported and left out, and the rest is read as a program with distinct names.

variable {finder : ComponentFinder} {c c' : Collection} {program : Program} {name : String}

-- The same collection with diagnostics that came before.
def after (c : Collection) (earlier : List Diagnostic) : Collection :=
  { c with diagnostics := earlier ++ c.diagnostics }

-- The items that are read: of several types of one name the first, and everything else.
def accepted (program : Program) : Program := (declareShells {} program).2

-- The types that are left out, as they are reported.
def clashes (program : Program) : List Diagnostic := (declareShells {} program).1.diagnostics

section Shells

theorem declareShells_taken {item : Item} {rest : Program} (hname : item.typeName? = some name)
    (htaken : (c.env.lookupLocal? name).isSome) :
    c.declareShells (item :: rest) =
      (c.report (.duplicateDeclaration name) (some item.span)).declareShells rest := by
  obtain ⟨shell, hshell, -⟩ := Item.shell?_of_typeName? hname
  simp [declareShells, hname, hshell, htaken]

-- One induction for all that a declaration of names does. What is kept has names of its own,
-- which were free before, and alone it declares the same.
theorem declareShells_kept (c c' : Collection) (program : Program) (henv : c.env = c'.env) :
    Program.Distinct (c.declareShells program).2 ∧
      (∀ name ∈ Program.typeNames (c.declareShells program).2, c.env.lookupLocal? name = none) ∧
      (c.declareShells program).2.Sublist program ∧
      (c.declareShells program).1.env = (c'.declareShells (c.declareShells program).2).1.env ∧
      (c.declareShells program).1.registry = c.registry ∧
      ∃ reported, (c.declareShells program).1.diagnostics = c.diagnostics ++ reported ∧
        ∀ d ∈ reported, ∃ name, d.problem = .duplicateDeclaration name := by
  induction program generalizing c c' with
  | nil => exact ⟨List.nodup_nil, by simp [declareShells, Program.typeNames], .slnil, henv, rfl, [],
      by simp [declareShells], by simp⟩
  | cons item rest ih =>
      cases hname : item.typeName? with
      | none =>
          obtain ⟨hdistinct, hfree, hsub, hsame, hregistry, hreported⟩ := ih c c' henv
          rw [declareShells_other hname]
          have hnames : Program.typeNames (item :: (c.declareShells rest).2) =
              Program.typeNames (c.declareShells rest).2 := by
            simp [Program.typeNames, hname]
          refine ⟨?_, ?_, hsub.cons_cons item, ?_, hregistry, hreported⟩
          · rw [Program.Distinct, hnames]
            exact hdistinct
          · rwa [hnames]
          · dsimp only
            rw [declareShells_other hname]
            exact hsame
      | some first =>
          by_cases htaken : (c.env.lookupLocal? first).isSome
          · rw [declareShells_taken hname htaken]
            obtain ⟨hdistinct, hfree, hsub, hsame, hregistry, reported, hdiagnostics, hreported⟩ :=
              ih (c.report (.duplicateDeclaration first) (some item.span)) c' henv
            refine ⟨hdistinct, hfree, hsub.cons item, hsame, hregistry,
              ⟨.duplicateDeclaration first, some item.span⟩ :: reported, ?_, ?_⟩
            · rw [hdiagnostics]
              exact List.append_assoc _ _ _
            · exact List.forall_mem_cons.mpr ⟨⟨first, rfl⟩, hreported⟩
          · have hlocal : c.env.lookupLocal? first = none := by simpa using htaken
            obtain ⟨shell, hshell, -⟩ := Item.shell?_of_typeName? hname
            rw [declareShells_type hname hshell hlocal]
            have henv' : (c.define first shell).env = (c'.define first shell).env := by
              rw [define, define, henv]
            obtain ⟨hdistinct, hfree, hsub, hsame, hregistry, hreported⟩ := ih _ _ henv'
            dsimp only
            generalize ((c.define first shell).declareShells rest).2 = kept at *
            have hnames : Program.typeNames (item :: kept) = first :: Program.typeNames kept := by
              simp [Program.typeNames, hname]
            have hother : ∀ name ∈ Program.typeNames kept,
                first ≠ name ∧ c.env.lookupLocal? name = none := by
              intro name hmem
              have hlookup := hfree name hmem
              simp only [define, Environment.lookupLocal?, Environment.define,
                Bindings.get?_insert] at hlookup
              split at hlookup
              · cases hlookup
              · rename_i hne
                exact ⟨hne, hlookup⟩
            refine ⟨?_, ?_, hsub.cons_cons item, ?_, hregistry, hreported⟩
            · rw [Program.Distinct, hnames]
              exact List.nodup_cons.mpr ⟨fun hmem => (hother first hmem).1 rfl, hdistinct⟩
            · rw [hnames]
              exact List.forall_mem_cons.mpr ⟨hlocal, fun name hmem => (hother name hmem).2⟩
            · rw [declareShells_type hname hshell (henv ▸ hlocal)]
              exact hsame

-- Distinct names that are free are declared without a report.
theorem diagnostics_declareShells (hdistinct : program.Distinct)
    (hfree : ∀ name ∈ program.typeNames, c.env.lookupLocal? name = none) :
    (c.declareShells program).1.diagnostics = c.diagnostics := by
  induction program generalizing c with
  | nil => rfl
  | cons item rest ih =>
      cases hname : item.typeName? with
      | none =>
          have hnames : Program.typeNames (item :: rest) = Program.typeNames rest := by
            simp [Program.typeNames, hname]
          rw [declareShells_other hname]
          exact ih hdistinct.tail (hnames ▸ hfree)
      | some first =>
          have hnames : Program.typeNames (item :: rest) = first :: Program.typeNames rest := by
            simp [Program.typeNames, hname]
          rw [hnames] at hfree
          obtain ⟨hlocal, hrest⟩ := List.forall_mem_cons.mp hfree
          obtain ⟨shell, hshell, -⟩ := Item.shell?_of_typeName? hname
          rw [declareShells_type hname hshell hlocal]
          refine (ih hdistinct.tail fun other hmem => ?_).trans rfl
          have hne : first ≠ other := by
            rintro rfl
            exact hdistinct.not_mem_tail hname hmem
          simp only [define, Environment.lookupLocal?, Environment.define, Bindings.get?_insert,
            hne, if_false]
          exact hrest other hmem

theorem distinct_accepted (program : Program) : (accepted program).Distinct :=
  (declareShells_kept {} {} program rfl).1

theorem accepted_sublist (program : Program) : (accepted program).Sublist program :=
  (declareShells_kept {} {} program rfl).2.2.1

-- Only types are ever left out.
theorem filter_declareShells (c : Collection) (program : Program) :
    (c.declareShells program).2.filter (fun item => !item.isType) =
      program.filter fun item => !item.isType := by
  induction program generalizing c with
  | nil => rfl
  | cons item rest ih =>
      cases hname : item.typeName? with
      | none =>
          have hother : item.isType = false := by simp [Item.isType, hname]
          rw [declareShells_other hname]
          simp [hother, ih]
      | some name =>
          have htype : item.isType = true := by simp [Item.isType, hname]
          obtain ⟨shell, hshell, -⟩ := Item.shell?_of_typeName? hname
          cases htaken : c.env.lookupLocal? name with
          | some decl =>
              rw [declareShells_taken hname (Option.isSome_of_eq_some htaken), ih]
              simp [htype]
          | none =>
              rw [declareShells_type hname hshell htaken]
              simp [htype, ih]

theorem mem_accepted {item : Item} (hitem : item ∈ program) (hname : item.typeName? = none) :
    item ∈ accepted program := by
  have hother : item ∈ program.filter fun item => !item.isType :=
    List.mem_filter.mpr ⟨hitem, by simp [Item.isType, hname]⟩
  rw [← filter_declareShells {}] at hother
  exact (List.mem_filter.mp hother).1

theorem filterMap_accepted {α : Type} {f : Item → Option α}
    (hf : ∀ item, item.isType = true → f item = none) (program : Program) :
    (accepted program).filterMap f = program.filterMap f := by
  have hothers (items : Program) :
      items.filterMap f = (items.filter fun item => !item.isType).filterMap f := by
    rw [List.filterMap_filter]
    refine List.filterMap_congr fun item _ => ?_
    cases htype : item.isType with
    | true => simp [hf item htype]
    | false => rfl
  rw [hothers, accepted, filter_declareShells, ← hothers]

theorem mem_clashes {d : Diagnostic} (h : d ∈ clashes program) :
    ∃ name, d.problem = .duplicateDeclaration name := by
  obtain ⟨-, -, -, -, -, reported, hdiagnostics, hreported⟩ :=
    declareShells_kept {} {} program rfl
  refine hreported d ?_
  rwa [clashes, hdiagnostics, List.nil_append] at h

theorem declareShells_eq (program : Program) :
    declareShells {} program =
      ((declareShells {} (accepted program)).1.after (clashes program), accepted program) := by
  obtain ⟨hdistinct, hfree, -, hsame, hregistry, -⟩ :=
    declareShells_kept {} {} program rfl
  obtain ⟨-, -, -, -, hregistry', -⟩ :=
    declareShells_kept {} {} (accepted program) rfl
  have hsilent := diagnostics_declareShells (c := {}) hdistinct hfree
  refine Prod.ext ?_ rfl
  rw [after, clashes, show (declareShells {} (accepted program)).1.diagnostics = [] from hsilent,
    List.append_nil]
  show (declareShells {} program).1 =
    ⟨(declareShells {} (accepted program)).1.env, (declareShells {} (accepted program)).1.registry,
      (declareShells {} program).1.diagnostics⟩
  rw [hregistry', show (declareShells {} (accepted program)).1.env =
    (declareShells {} program).1.env from hsame.symm, ← hregistry]

end Shells

-- No phase looks at the diagnostics of those before it.
section After

variable (c) (earlier : List Diagnostic)

theorem report_after (problem : Problem) (node : Option Span) :
    (c.after earlier).report problem node = (c.report problem node).after earlier := by
  simp [report, after]

theorem foldl_after {α : Type} {step : Collection → α → Collection}
    (hstep : ∀ c x, step (after c earlier) x = (step c x).after earlier) (xs : List α) :
    xs.foldl step (c.after earlier) = (xs.foldl step c).after earlier := by
  induction xs generalizing c with
  | nil => rfl
  | cons x xs ih => rw [List.foldl_cons, List.foldl_cons, hstep, ih]

theorem readAliases_after (components : AliasGraph → List (List String))
    (aliases : List AliasDef) :
    (c.after earlier).readAliases components aliases =
      (c.readAliases components aliases).after earlier := by
  refine foldl_after c earlier (fun c members => ?_) _
  simp only [readComponent]
  split
  · rfl
  · split
    · exact report_after c earlier _ _
    · rfl

theorem readType_after (item : Item) :
    (c.after earlier).readType item = (c.readType item).after earlier := by
  cases item <;> rfl

theorem readFunction_after (item : FunctionDef) :
    (c.after earlier).readFunction item = (c.readFunction item).after earlier := by
  have henv : (c.after earlier).env = c.env := rfl
  simp only [readFunction, henv]
  split
  · rfl
  · exact report_after c earlier _ _

theorem readImpl_after (item : ImplDef) :
    (c.after earlier).readImpl item = (c.readImpl item).after earlier := by
  have hreport (problems : List Problem) (node : Option Span) :
      (c.after earlier).reportAll problems node = (c.reportAll problems node).after earlier :=
    foldl_after c earlier (fun c problem => report_after c earlier problem node) problems
  have henv : (c.after earlier).env = c.env := rfl
  simp only [readImpl, henv, hreport]
  cases (item.elaborate c.env).impl <;> rfl

end After

-- Functions are read after the types.
def called (finder : ComponentFinder) (program : Program) : Collection :=
  (program.filterMap Item.function?).foldl readFunction (typed finder program)

def served (finder : ComponentFinder) (program : Program) (builtins : Bool) : Collection :=
  let before := called finder program
  if builtins then
    { before with registry := before.registry.registerAll (Registry.builtins before.env) }
  else before

theorem ofProgram_distinct (hdistinct : program.Distinct) (builtins : Bool) :
    ofProgram finder program builtins =
      (program.filterMap Item.impl?).foldl readImpl (served finder program builtins) := by
  obtain ⟨hkept, -, -⟩ := shells_spec hdistinct
  rw [ofProgram]
  dsimp only
  rw [hkept]
  rfl

-- The program that is read is the one of the accepted items.
theorem ofProgram_eq (program : Program) (builtins : Bool) :
    ofProgram finder program builtins =
      (ofProgram finder (accepted program) builtins).after (clashes program) := by
  obtain ⟨hkept, -, -⟩ := shells_spec (distinct_accepted program)
  rw [ofProgram, ofProgram, declareShells_eq program]
  dsimp only
  rw [hkept, readAliases_after, foldl_after _ _ (fun c => readType_after c _),
    foldl_after _ _ (fun c => readFunction_after c _)]
  generalize List.foldl readFunction _ _ = before
  cases builtins with
  | false => exact foldl_after before _ (fun c => readImpl_after c _) _
  | true =>
      exact foldl_after
        { before with registry := before.registry.registerAll (Registry.builtins before.env) } _
        (fun c => readImpl_after c _) _

theorem env_foldl_readImpl (items : List ImplDef) (c : Collection) :
    (items.foldl readImpl c).env = c.env :=
  List.foldlRecOn (motive := fun c' : Collection => c'.env = c.env) _ _ rfl
    fun _ h item _ => (env_readImpl _ item).trans h

theorem env_ofProgram (finder : ComponentFinder) (program : Program) (builtins : Bool) :
    (ofProgram finder program builtins).env = (called finder (accepted program)).env := by
  rw [ofProgram_eq, ofProgram_distinct (distinct_accepted program)]
  refine (env_foldl_readImpl _ _).trans ?_
  cases builtins <;> rfl

section Environments

variable (hdistinct : program.Distinct)

include hdistinct

-- A type looks the same to type expressions from the reading of the aliases on.
theorem face?_typed (name : String) :
    (typed finder program).env.face? name = (aliased finder program).env.face? name := by
  have hfold : ∀ name,
      (typed finder program).env.face? name = (aliased finder program).env.face? name := by
    refine List.foldlRecOn (motive := fun c : Collection =>
      ∀ name, c.env.face? name = (aliased finder program).env.face? name) _ _ (fun _ => rfl) ?_
    intro c hfaces item hitem
    exact face?_readType hfaces fun name hname hdecl => face?_aliased hdistinct hitem hname hdecl
  exact hfold name

theorem lookup?_typed_other (hname : name ∉ program.typeNames) :
    (typed finder program).env.lookup? name = none := by
  have hitem := Program.typeItem?_eq_none hname
  have halias : name ∉ program.aliases.map AliasDef.name := by
    intro hmem
    obtain ⟨found, hfound, rfl⟩ := List.mem_map.mp hmem
    obtain ⟨item, hitem, halias⟩ := List.mem_filterMap.mp hfound
    obtain rfl := Item.eq_alias_of_alias? halias
    exact hname (List.mem_filterMap.mpr ⟨_, hitem, rfl⟩)
  rw [lookup?_typed hdistinct, hitem, aliased,
    lookup?_readAliases_unread (Program.nodup_aliases hdistinct) _ (.inl halias),
    (shells_spec hdistinct).2.2, hitem]
  rfl

theorem lookup?_called (hname : name ∈ program.typeNames) :
    (called finder program).env.lookup? name = (typed finder program).env.lookup? name := by
  obtain ⟨decl, hfinal, htyped⟩ := lookup?_ofProgram finder hdistinct false hname
  rw [ofProgram_distinct hdistinct, env_foldl_readImpl] at hfinal
  exact hfinal.trans htyped.symm

-- A name that no type has can only be that of a function.
theorem lookup?_called_other (hname : name ∉ program.typeNames) :
    (called finder program).env.lookup? name = none ∨
      ∃ type, (called finder program).env.lookup? name = some (.function type) := by
  refine List.foldlRecOn (motive := fun c : Collection => c.env.lookup? name = none ∨
    ∃ type, c.env.lookup? name = some (.function type)) _ _
    (.inl (lookup?_typed_other hdistinct hname)) ?_
  intro c hc item _
  rw [readFunction]
  split
  · rename_i type _
    rw [define, Environment.lookup?_define]
    split
    · exact .inr ⟨type, rfl⟩
    · exact hc
  · exact hc

-- Aliases are what their reading made of them.
theorem lookup?_aliased_of_called {decl : AliasDecl}
    (h : (called finder program).env.lookup? name = some (.alias decl)) :
    (aliased finder program).env.lookup? name = some (.alias decl) := by
  by_cases hname : name ∈ program.typeNames
  · rw [lookup?_called hdistinct hname, lookup?_typed hdistinct] at h
    rcases Option.or_eq_some_iff.mp h with hdecl | ⟨-, halias⟩
    · obtain ⟨item, -, hdecl⟩ := Option.bind_eq_some_iff.mp hdecl
      cases item <;> simp [Item.declaration?] at hdecl
    · exact halias
  · rcases lookup?_called_other hdistinct hname with hnone | ⟨type, htype⟩
    · rw [hnone] at h
      cases h
    · rw [htype] at h
      cases h

-- Types and functions are read after the aliases and take none of their names.
theorem lookup?_called_of_aliased {decl : AliasDecl}
    (h : (aliased finder program).env.lookup? name = some (.alias decl)) :
    (called finder program).env.lookup? name = some (.alias decl) := by
  have htyped : (typed finder program).env.lookup? name = some (.alias decl) := by
    rw [lookup?_typed hdistinct, h]
    cases hitem : program.typeItem? name with
    | none => rfl
    | some item =>
        obtain ⟨hmem, hname⟩ := (Program.typeItem?_eq_some_iff hdistinct).mp hitem
        cases hdecl : item.declaration? (aliased finder program).env with
        | none => simp [hdecl]
        | some other =>
            have hface : (aliased finder program).env.face? name = _ :=
              face?_aliased hdistinct hmem hname (Option.isSome_of_eq_some hdecl)
            rw [Item.face_declaration hdecl, Environment.face?, h] at hface
            have hkind := congrArg Face.kind (Option.some.inj hface)
            cases item <;> simp [Item.declaration?] at hdecl <;> subst hdecl <;>
              simp [Declaration.face, Declaration.kindName] at hkind
  by_cases hname : name ∈ program.typeNames
  · rw [lookup?_called hdistinct hname, htyped]
  · rw [lookup?_typed_other hdistinct hname] at htyped
    cases htyped

-- What holds of the shells of aliases, and of an alias that is read where it holds of those
-- before it, holds of all. What is read of an alias is what it stays.
theorem alias_invariant {P : String → AliasDecl → Prop}
    (hshell : ∀ item ∈ program.aliases, P item.name item.shell)
    (hread : ∀ item ∈ program.aliases, ∀ env : Environment, env.IsTypes →
      (∀ name decl, env.lookup? name = some (.alias decl) → P name decl) →
      (aliased finder program).env.lookup? item.name = some (.alias (item.elaborate env)) →
      P item.name (item.elaborate env))
    {decl : AliasDecl} (h : (aliased finder program).env.lookup? name = some (.alias decl)) :
    P name decl := by
  have hnodup := Program.nodup_aliases hdistinct
  have hcomponents := finder.condensation (AliasGraph.closed_ofDefs hnodup)
  obtain ⟨-, htypes, hshells⟩ := shells_spec hdistinct
  have hfront (front : List (List String)) : ∀ rest,
      finder.components (AliasGraph.ofDefs program.aliases) = front ++ rest →
      (front.foldl (readComponent program.aliases (AliasGraph.ofDefs program.aliases))
          (declareShells {} program).1).env.IsTypes ∧
        ∀ name decl, (front.foldl
          (readComponent program.aliases (AliasGraph.ofDefs program.aliases))
          (declareShells {} program).1).env.lookup? name = some (.alias decl) → P name decl := by
    induction front using List.reverseRecOn with
    | nil =>
        refine fun _ _ => ⟨htypes, fun name decl hlookup => ?_⟩
        rw [List.foldl_nil, hshells] at hlookup
        obtain ⟨item, hitem, hdecl⟩ := Option.bind_eq_some_iff.mp hlookup
        obtain ⟨hmem, hname⟩ := (Program.typeItem?_eq_some_iff hdistinct).mp hitem
        cases item with
        | «alias» item =>
            obtain rfl : item.shell = decl := by simpa [Item.shell?] using hdecl
            obtain rfl : item.name = name := by simpa [Item.typeName?] using hname
            exact hshell item (List.mem_filterMap.mpr ⟨_, hmem, rfl⟩)
        | _ => simp [Item.shell?] at hdecl
    | append_singleton front members ih =>
        intro rest hsplit
        have hsplit :
            finder.components (AliasGraph.ofDefs program.aliases) = front ++ members :: rest := by
          simpa using hsplit
        obtain ⟨htypes, hbefore⟩ := ih _ hsplit
        rw [List.foldl_append, List.foldl_cons, List.foldl_nil]
        refine ⟨isTypes_readComponent htypes _ _ _, ?_⟩
        rw [readComponent]
        split
        · exact hbefore
        rename_i item hfind
        split
        · exact hbefore
        rename_i hacyclic
        have hitem := List.mem_of_find?_eq_some hfind
        have hmember : item.name ∈ members := by simpa using List.find?_some hfind
        have hmembers : members ∈ finder.components (AliasGraph.ofDefs program.aliases) := by
          simp [hsplit]
        have hself : ¬ (AliasGraph.ofDefs program.aliases).Leads item.name item.name := by
          rwa [← hcomponents.isCyclic_iff hmembers hmember]
        obtain rfl := hcomponents.eq_singleton_of_mem hmembers hmember hself
        have hfinal :=
          lookup?_readAliases_item hnodup (declareShells {} program).1 hitem hself hsplit
        intro name decl hlookup
        rw [define, Environment.lookup?_define] at hlookup
        split at hlookup
        · rename_i heq
          subst heq
          obtain rfl := Declaration.alias.inj (Option.some.inj hlookup)
          exact hread item hitem _ htypes hbefore hfinal
        · exact hbefore name decl hlookup
  exact (hfront _ [] (List.append_nil _).symm).2 name decl h

end Environments

-- What a block reports, where it stands.
def implReports (env : Environment) (item : ImplDef) : List Diagnostic :=
  (item.elaborate env).problems.map fun problem => ⟨problem, some item.span⟩

theorem readImpl_eq (c : Collection) (item : ImplDef) :
    c.readImpl item =
      { env := c.env
        registry := c.registry.registerAll (item.elaborate c.env).impl.toList
        diagnostics := c.diagnostics ++ implReports c.env item } := by
  have hreport (problems : List Problem) (node : Option Span) : ∀ c : Collection,
      c.reportAll problems node =
        { c with diagnostics := c.diagnostics ++ problems.map fun problem => ⟨problem, node⟩ } := by
    induction problems with
    | nil => intro c; simp [reportAll]
    | cons problem problems ih =>
        intro c
        have hstep : c.reportAll (problem :: problems) node =
            (c.report problem node).reportAll problems node := rfl
        rw [hstep, ih]
        simp [report]
  simp only [readImpl, hreport, implReports]
  cases (item.elaborate c.env).impl with
  | none => simp [Registry.registerAll]
  | some impl => simp [Registry.registerAll, Registry.register]

-- Blocks are read one after another, each in the environment of the whole program.
theorem foldl_readImpl (items : List ImplDef) (c : Collection) :
    items.foldl readImpl c =
      { env := c.env
        registry := c.registry.registerAll (items.filterMap fun item => (item.elaborate c.env).impl)
        diagnostics := c.diagnostics ++ items.flatMap (implReports c.env) } := by
  induction items generalizing c with
  | nil => simp [Registry.registerAll]
  | cons item items ih =>
      rw [List.foldl_cons, ih, readImpl_eq]
      cases himpl : (item.elaborate c.env).impl <;> simp [Registry.registerAll, himpl]

theorem isBuiltin_of_mem_builtins {env : Environment} {impl : Implementation}
    (h : impl ∈ Registry.builtins env) : impl.isBuiltin = true := by
  simp only [Registry.builtins, List.mem_flatMap] at h
  obtain ⟨entry, -, hentry⟩ := h
  split at hentry
  · split at hentry
    · obtain ⟨target, -, rfl⟩ := List.mem_map.mp hentry
      rfl
    · cases hentry
  · cases hentry

theorem env_served (program : Program) (builtins : Bool) :
    (served finder program builtins).env = (called finder program).env := by
  cases builtins <;> rfl

-- Before the built-in implementations, nothing is registered.
theorem entries_called (program : Program) : (called finder program).registry.entries = [] := by
  have haliased : (aliased finder program).registry.entries = [] := by
    refine List.foldlRecOn (motive := fun c : Collection => c.registry.entries = []) _ _ ?_ ?_
    · obtain ⟨-, -, -, -, hregistry, -⟩ := declareShells_kept {} {} program rfl
      rw [hregistry]
      rfl
    · intro c hc members _
      rw [readComponent]
      split
      · exact hc
      · split <;> exact hc
  have htyped : (typed finder program).registry.entries = [] := by
    refine List.foldlRecOn
      (motive := fun c : Collection => c.registry.entries = []) _ _ haliased ?_
    intro c hc item _
    cases item <;> exact hc
  refine List.foldlRecOn (motive := fun c : Collection => c.registry.entries = []) _ _ htyped ?_
  intro c hc item _
  rw [readFunction]
  split <;> exact hc

-- What is registered before the blocks is built in.
theorem isBuiltin_of_mem_served {builtins : Bool} {impl : Implementation}
    (h : impl ∈ (served finder program builtins).registry.entries) : impl.isBuiltin = true := by
  cases builtins with
  | false =>
      rw [served, if_neg (by simp), entries_called] at h
      cases h
  | true =>
      simp only [served, if_true, Registry.registerAll, entries_called, List.nil_append] at h
      exact isBuiltin_of_mem_builtins h

-- An implementation of the program comes from a block of it.
theorem exists_block {builtins : Bool} {impl : Implementation}
    (himpl : impl ∈ (ofProgram finder program builtins).registry.entries)
    (huser : impl.isBuiltin = false) :
    ∃ item, Item.impl item ∈ program ∧
      (item.elaborate (ofProgram finder program builtins).env).impl = some impl := by
  have henv := env_ofProgram finder program builtins
  rw [ofProgram_eq, ofProgram_distinct (distinct_accepted program), foldl_readImpl] at himpl
  rcases List.mem_append.mp himpl with hbuiltin | hblock
  · rw [isBuiltin_of_mem_served hbuiltin] at huser
    cases huser
  · obtain ⟨item, hitem, helaborate⟩ := List.mem_filterMap.mp hblock
    obtain ⟨block, hmem, hblock⟩ := List.mem_filterMap.mp hitem
    obtain rfl : block = .impl item := by
      cases block with
      | impl _ => exact congrArg Item.impl (Option.some.inj hblock)
      | _ => cases hblock
    refine ⟨item, (accepted_sublist program).subset hmem, ?_⟩
    rw [henv, ← env_served _ builtins]
    exact helaborate

-- What a block reports stands together among the diagnostics of the program.
theorem exists_reports {builtins : Bool} {block : ImplDef} (hblock : Item.impl block ∈ program) :
    ∃ before later, (ofProgram finder program builtins).diagnostics =
      before ++ implReports (ofProgram finder program builtins).env block ++ later := by
  have hitem : block ∈ (accepted program).filterMap Item.impl? :=
    List.mem_filterMap.mpr ⟨_, mem_accepted hblock rfl, rfl⟩
  obtain ⟨front, rest, hsplit⟩ := List.append_of_mem hitem
  refine ⟨clashes program ++ (served finder (accepted program) builtins).diagnostics ++
      front.flatMap (implReports (served finder (accepted program) builtins).env),
    rest.flatMap (implReports (served finder (accepted program) builtins).env), ?_⟩
  rw [env_ofProgram, ← env_served _ builtins, ofProgram_eq,
    ofProgram_distinct (distinct_accepted program), foldl_readImpl, hsplit, after]
  simp only [List.flatMap_append, List.flatMap_cons, List.append_assoc]

end Collection

namespace ImplDef

-- The generics of a block, with those that it declares implicitly.
def inferred (item : ImplDef) (env : Environment) : InferredGenerics :=
  env.inferGenerics item.generics item.wheres item.typeNames

def genericNames (item : ImplDef) (env : Environment) : List String :=
  TypeParam.names (item.inferred env).generics

end ImplDef

-- What is known of a block that is used: its interface, and that its target is allowed.
theorem ImplDef.elaborate_impl {item : ImplDef} {env : Environment} {impl : Implementation}
    (h : (item.elaborate env).impl = some impl) :
    ∃ interface, env.lookup? item.interface = some (.interface interface) ∧
      impl = item.build env interface (item.inferred env) ∧
      interface.targetFault? env (item.genericNames env) item.target = none := by
  rw [elaborate] at h
  split at h
  · cases h
  · rename_i interface hinterface
    dsimp only at h
    split at h
    · cases h
    · rename_i hfault
      exact ⟨interface, hinterface, (Option.some.inj h).symm, hfault⟩
  · cases h

-- Problems of a block as such, whatever its methods are.
def Problem.isOfBlock : Problem → Bool
  | .constraint _ _ | .unexpectedArguments _ | .implArity _ _ _ | .targetShape _ _
  | .bareTarget _ => true
  | _ => false

def Problem.isOfMethod : Problem → Bool
  | .missingMethod _ _ | .methodMismatch _ _ _ => true
  | _ => false

theorem Implementation.isOfMethod_of_mem {impl : Implementation} {env : Environment}
    {names : List String} {problem : Problem} (h : problem ∈ impl.methodProblems env names) :
    problem.isOfMethod = true := by
  obtain ⟨⟨name, method⟩, -, hproblem⟩ := List.mem_filterMap.mp h
  simp only [methodProblem?] at hproblem
  split at hproblem
  · split at hproblem
    · cases hproblem
    · rw [← Option.some.inj hproblem]
      rfl
  · obtain ⟨fault, -, rfl⟩ := Option.map_eq_some_iff.mp hproblem
    rfl

-- What a block may report: problems of its own, and those of its methods.
theorem ImplDef.mem_problems {item : ImplDef} {env : Environment} {problem : Problem}
    (h : problem ∈ (item.elaborate env).problems) :
    problem.isOfBlock = true ∨
      ∃ interface, env.lookup? item.interface = some (.interface interface) ∧
        problem ∈ (item.build env interface (item.inferred env)).methodProblems env
          (item.genericNames env) := by
  have harity (interface : InterfaceDecl) (owner : String) (given : Nat)
      (hmem : problem ∈ arityProblems interface owner given) : problem.isOfBlock = true := by
    simp only [arityProblems] at hmem
    split_ifs at hmem
    · cases hmem
    · rw [List.mem_singleton.mp hmem]
      rfl
    · rw [List.mem_singleton.mp hmem]
      rfl
  rw [elaborate] at h
  split at h
  · rw [List.mem_singleton.mp h]
    exact .inl rfl
  · rename_i interface hinterface
    dsimp only at h
    split at h
    · rename_i fault hfault
      refine .inl ((List.mem_append.mp h).elim (harity _ _ _) fun hmem => ?_)
      rw [List.mem_singleton.mp hmem]
      simp only [InterfaceDecl.targetFault?] at hfault
      split at hfault
      · split at hfault
        · cases hfault
        · rw [← Option.some.inj hfault]
          rfl
      · split at hfault
        · rw [← Option.some.inj hfault]
          rfl
        · cases hfault
    · exact (List.mem_append.mp h).imp (harity _ _ _) fun hmem => ⟨interface, hinterface, hmem⟩
  · rw [List.mem_singleton.mp h]
    exact .inl rfl

-- Diagnostics of a kind that blocks do not have come from declaring names or from reading
-- declarations.
theorem Collection.filter_diagnostics {finder : ComponentFinder} {kind : Diagnostic → Bool}
    (hkind : ∀ d, kind d = true → d.problem.isOfBlock = false ∧ d.problem.isOfMethod = false)
    (program : Program) (builtins : Bool) :
    (ofProgram finder program builtins).diagnostics.filter kind =
      (clashes program).filter kind ++
        (called finder (accepted program)).diagnostics.filter kind := by
  have hserved : (served finder (accepted program) builtins).diagnostics =
      (called finder (accepted program)).diagnostics := by
    cases builtins <;> rfl
  have hblocks (env : Environment) (items : List ImplDef) :
      (items.flatMap (implReports env)).filter kind = [] := by
    refine List.filter_eq_nil_iff.mpr fun d hd hof => ?_
    obtain ⟨item, -, hd⟩ := List.mem_flatMap.mp hd
    obtain ⟨problem, hproblem, rfl⟩ := List.mem_map.mp hd
    obtain ⟨hblock, hmethod⟩ := hkind _ hof
    rcases ImplDef.mem_problems hproblem with hown | ⟨interface, -, hmem⟩
    · cases hown.symm.trans hblock
    · cases (Implementation.isOfMethod_of_mem hmem).symm.trans hmethod
  rw [ofProgram_eq, ofProgram_distinct (distinct_accepted program), foldl_readImpl, after]
  dsimp only
  rw [List.filter_append, List.filter_append, hblocks, hserved, List.append_nil]

end Conformance
