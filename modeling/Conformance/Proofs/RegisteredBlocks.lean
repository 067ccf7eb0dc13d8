import Conformance.Proofs.BareTargets
import Conformance.Proofs.FirstDeclarations

namespace Conformance

-- Every block of a program is either used, as one implementation in the place of the block, or
-- refused with a report. Other problems of a block are reported as well and do not prevent its use.

def Program.blocks (program : Program) : List ImplDef := program.filterMap Item.impl?

theorem Program.mem_blocks {program : Program} {block : ImplDef} :
    block ∈ program.blocks ↔ Item.impl block ∈ program := by
  constructor
  · intro hmem
    obtain ⟨item, hitem, hblock⟩ := List.mem_filterMap.mp hmem
    cases item with
    | impl found =>
        obtain rfl := Option.some.inj hblock
        exact hitem
    | _ => cases hblock
  · intro hmem
    exact List.mem_filterMap.mpr ⟨_, hmem, rfl⟩

namespace ImplDef

variable {block : ImplDef} {env : Environment}

-- Why a block cannot be used, if it cannot.
def refusal? (block : ImplDef) (env : Environment) : Option Problem :=
  match env.lookup? block.interface with
  | none => some (.constraint "impl" (.unknownInterface block.interface))
  | some (.interface interface) =>
      interface.targetFault? env (block.genericNames env) block.target
  | some _ => some (.constraint "impl" (.notAnInterface block.interface))

theorem isSome_refusal?_iff :
    (block.refusal? env).isSome ↔
      env.lookupInterface? block.interface = none ∨
        ∃ interface, env.lookupInterface? block.interface = some interface ∧
          (interface.targetFault? env (block.genericNames env) block.target).isSome := by
  rw [refusal?, Environment.lookupInterface?]
  cases env.lookup? block.interface with
  | none => simp
  | some decl => cases decl <;> simp

-- A refusal is among the problems of the block, and nothing comes of the block. Without one, the
-- block is built for its interface.
theorem elaborate_cases (block : ImplDef) (env : Environment) :
    (∃ problem, block.refusal? env = some problem ∧ (block.elaborate env).impl = none ∧
        problem ∈ (block.elaborate env).problems) ∨
      (∃ interface, block.refusal? env = none ∧
        env.lookup? block.interface = some (.interface interface) ∧
        (block.elaborate env).impl = some (block.build env interface (block.inferred env))) := by
  rw [refusal?, elaborate]
  cases env.lookup? block.interface with
  | none => exact .inl ⟨_, rfl, rfl, List.mem_singleton_self _⟩
  | some decl =>
      cases decl with
      | interface interface =>
          dsimp only [genericNames, inferred]
          cases interface.targetFault? env _ block.target with
          | none => exact .inr ⟨interface, rfl, rfl, rfl⟩
          | some fault =>
              exact .inl ⟨fault, rfl, rfl, List.mem_append_right _ (List.mem_singleton_self _)⟩
      | _ => exact .inl ⟨_, rfl, rfl, List.mem_singleton_self _⟩

theorem impl_eq_none_iff : (block.elaborate env).impl = none ↔ (block.refusal? env).isSome := by
  rcases block.elaborate_cases env with
    ⟨problem, hrefusal, hnone, -⟩ | ⟨interface, hrefusal, -, himpl⟩
  · simp [hrefusal, hnone]
  · simp [hrefusal, himpl]

end ImplDef

namespace Collection

variable {finder : ComponentFinder} {program : Program} {builtins : Bool} {block : ImplDef}

-- Interfaces are bound under their names.
theorem name_of_lookup?_interface {name : String} {decl : InterfaceDecl}
    (h : (ofProgram finder program builtins).env.lookup? name = some (.interface decl)) :
    decl.name = name := by
  by_cases hname : name ∈ program.typeNames
  · obtain ⟨item, hitem⟩ := Option.isSome_iff_exists.mp (Program.isSome_typeItem?_iff.mpr hname)
    obtain ⟨found, hfound, hof⟩ := exists_declaration builtins hitem
    obtain rfl := Option.some.inj (hfound.symm.trans h)
    have hitem : item.typeName? = some name := by simpa using List.find?_some hitem
    exact Option.some.inj (hof.name.trans hitem)
  · by_cases hfunction : name ∈ program.functions.map FunctionDef.name
    · obtain ⟨type, htype, -⟩ := exists_function builtins hname hfunction
      rw [htype] at h
      cases h
    · rw [lookup?_undeclared builtins hname hfunction] at h
      cases h

theorem blocks_accepted (program : Program) : (accepted program).blocks = program.blocks := by
  refine filterMap_accepted (fun item htype => ?_) program
  cases item with
  | impl _ => cases htype
  | _ => rfl

-- The built-in implementations come first, and then what comes of the blocks, in order.
theorem entries_ofProgram (finder : ComponentFinder) (program : Program) (builtins : Bool) :
    (ofProgram finder program builtins).registry.entries =
      (if builtins then Registry.builtins (ofProgram finder program builtins).env else []) ++
        program.blocks.filterMap fun block =>
          (block.elaborate (ofProgram finder program builtins).env).impl := by
  have hserved : (served finder (accepted program) builtins).registry.entries =
      if builtins then Registry.builtins (served finder (accepted program) builtins).env
      else [] := by
    cases builtins with
    | false => exact entries_called _
    | true => simp [served, Registry.registerAll, entries_called]
  rw [env_ofProgram, ← env_served _ builtins, ← hserved, ← blocks_accepted, ofProgram_eq,
    ofProgram_distinct (distinct_accepted program), foldl_readImpl]
  rfl

theorem mem_diagnostics_of_block (hblock : block ∈ program.blocks) {problem : Problem}
    (hproblem : problem ∈ (block.elaborate (ofProgram finder program builtins).env).problems) :
    ⟨problem, some block.span⟩ ∈ (ofProgram finder program builtins).diagnostics := by
  obtain ⟨before, later, hsplit⟩ : ∃ before later,
      (ofProgram finder program builtins).diagnostics =
        before ++ implReports (ofProgram finder program builtins).env block ++ later :=
    exists_reports (Program.mem_blocks.mp hblock)
  rw [hsplit]
  refine List.mem_append_left _ (List.mem_append_right _ ?_)
  exact List.mem_map.mpr ⟨problem, hproblem, rfl⟩

end Collection

-- After the built-in implementations the registry has one for each block that is used, in order.
-- A block is left out exactly if its interface is none or does not allow its target, and then there
-- is a report on it that says so.
theorem blocks_used_or_reported (finder : ComponentFinder) (program : Program)
    (builtins : Bool) :
    let c := Collection.ofProgram finder program builtins
    c.registry.entries = (if builtins then Registry.builtins c.env else []) ++
        program.blocks.filterMap (fun block => (block.elaborate c.env).impl) ∧
      ∀ block ∈ program.blocks,
        ((∃ impl, (block.elaborate c.env).impl = some impl ∧ impl.interfaceName = block.interface ∧
            impl.span = some block.span ∧ impl.name = block.name ∧ impl.isBuiltin = false) ∨
          ((block.elaborate c.env).impl = none ∧
            ∃ d ∈ c.diagnostics, d.node = some block.span ∧
              block.refusal? c.env = some d.problem)) ∧
        ((block.elaborate c.env).impl = none ↔
          c.env.lookupInterface? block.interface = none ∨
            ∃ interface, c.env.lookupInterface? block.interface = some interface ∧
              (interface.targetFault? c.env (block.genericNames c.env) block.target).isSome) := by
  intro c
  refine ⟨Collection.entries_ofProgram finder program builtins, fun block hblock => ⟨?_, ?_⟩⟩
  · rcases block.elaborate_cases c.env with
      ⟨problem, hrefusal, hnone, hproblem⟩ | ⟨interface, -, hlookup, himpl⟩
    · have hreported := Collection.mem_diagnostics_of_block hblock hproblem
      exact .inr ⟨hnone, _, hreported, rfl, hrefusal⟩
    · have hname : interface.name = block.interface :=
        Collection.name_of_lookup?_interface hlookup
      exact .inl ⟨_, himpl, hname, rfl, rfl, rfl⟩
  · rw [ImplDef.impl_eq_none_iff, ImplDef.isSome_refusal?_iff]

namespace Refused

open Catalogue Wrapped

def block (name : Option String) (interface : String) (args : List TypeExpr) (target : TypeExpr)
    (span : Span) : ImplDef :=
  ⟨name, interface, args, [], target, [], [], span⟩

-- A constructor without arguments, what is no interface, and what is not declared.
def refused : List ImplDef :=
  [block none "Show" [] (named "Wrapper") ⟨10, 20, none⟩,
    block none "Wrapper" [] (named "i32") ⟨20, 30, none⟩,
    block none "Print" [] (named "i32") ⟨30, 40, none⟩]

-- A block with a name, and one with an argument too many.
def used : List ImplDef :=
  [block (some "Plain") "Show" [] (.generic (named "Wrapper") [named "T"] default) ⟨40, 50, none⟩,
    block none "Show" [named "bool"] (named "i32") ⟨50, 60, none⟩]

def program : Program := (refused ++ used).map Item.impl ++ [showable, wrapper]

end Refused

open Refused in
-- What is reported of the last block does not prevent its use.
theorem refused_blocks_reported :
    (Collection.ofProgram depthFirst program true).registry.entries.map
        (fun impl => (impl.interfaceName, impl.name, impl.span)) =
        [("Show", some "Plain", some ⟨40, 50, none⟩), ("Show", none, some ⟨50, 60, none⟩)] ∧
      (∀ block ∈ refused, ∃ d ∈ (Collection.ofProgram depthFirst program true).diagnostics,
        d.node = some block.span) ∧
      ⟨.unexpectedArguments "Show", some ⟨50, 60, none⟩⟩ ∈
        (Collection.ofProgram depthFirst program true).diagnostics := by
  obtain ⟨hentries, hblocks⟩ := blocks_used_or_reported depthFirst program true
  refine ⟨?_, fun block hblock => ?_, by decide +kernel⟩
  · rw [hentries]
    decide +kernel
  · have hwritten : ∀ block ∈ refused, block ∈ Program.blocks program := by decide +kernel
    have hnone : ∀ block ∈ refused,
        (block.elaborate (Collection.ofProgram depthFirst program true).env).impl = none := by
      decide +kernel
    rcases (hblocks block (hwritten block hblock)).1 with ⟨impl, himpl, -⟩ | ⟨-, d, hd, hnode, -⟩
    · rw [hnone block hblock] at himpl
      cases himpl
    · exact ⟨d, hd, hnode⟩

end Conformance
