import Conformance.Outcome

namespace Conformance

-- A goal is known by its text. Here is a language of types whose texts can be read back.

-- The characters that stand between names are no part of names.
def isNameChar (c : Char) : Bool := !" ?|(),:".toList.contains c

def isName (s : String) : Bool := !s.toList.isEmpty && s.toList.all isNameChar

-- What a name stands for. A struct may be written as declared or as an instance.
inductive Meaning where
  | param
  | declared (family : Family) (params : List String)
  | inst (arity : Nat)
  | alias (target : Ty)

-- Every name stands for one thing.
abbrev Vocabulary := Bindings Meaning

-- How a text that begins with some name goes on.
inductive Lead where
  -- It may be over here.
  | atom (t : Ty)
  | param (name : String)
  | function
  -- A number of arguments follows.
  | inst (name : String) (arity : Nat)
  | applied (family : Family) (name : String) (params : List String)
  | unary (constructor : Unary)
  | map
deriving DecidableEq

namespace Lead

def takesArgs : Lead → Bool
  | .atom _ | .param _ | .function => false
  | _ => true

def arity : Lead → Nat
  | .inst _ arity => arity
  | .applied _ _ params => params.length
  | .unary _ => 1
  | .map => 2
  | _ => 0

def build : Lead → List Ty → Ty
  | .inst name _, args => .inst name args
  | .applied family name params, args => .applied (.declared family name params) args
  | .unary constructor, [arg] => .unary constructor arg
  | .map, [key, value] => .map key value
  | _, _ => .unknown

end Lead

namespace Vocabulary

variable (V : Vocabulary)

def lead? (name : String) : Option Lead :=
  if name = "fn" then some .function
  else if name = "Unknown" then some (.atom .unknown)
  else
    match Scalar.ofName? name, Builtin.ofName? name with
    | some kind, _ => some (.atom (.scalar kind))
    | none, some (.unary constructor) => some (.unary constructor)
    | none, some .map => some .map
    | none, none =>
        match V.get? name with
        | some .param => some (.param name)
        | some (.declared family []) => some (.atom (.declared family name []))
        | some (.declared family params) => some (.applied family name params)
        | some (.inst 0) => some (.atom (.inst name []))
        | some (.inst arity) => some (.inst name arity)
        | some (.alias target) => some (.atom (.alias name target))
        | none => none

-- A type that is a name of the vocabulary.
def isAtom (t : Ty) : Bool := isName t.render && V.lead? t.render = some (.atom t)

-- A type that may stand in a union: a name, or a name with a question mark.
def isMember : Ty → Bool
  | .nullable inner => V.isAtom inner
  | t => V.isAtom t

mutual
-- The types that can be read back from their texts. Only names may be nullable or stand in
-- unions, every constructor has all its arguments, and the parameters of functions have no
-- names of their own. In a closed type there are no parameters.
def legible (closed : Bool) : Ty → Bool
  | .param name => !closed && isName name && V.lead? name = some (.param name)
  | .alias name target => V.isAtom (.alias name target) && legible true target
  | .inst name [] => V.isAtom (.inst name [])
  | .inst name (arg :: args) =>
      isName name && V.lead? name = some (.inst name (args.length + 1)) &&
        legible closed arg && allLegible closed args
  | .applied (.declared family name params) args =>
      isName name && V.lead? name = some (.applied family name params) &&
        args.length = params.length && allLegible closed args
  | .nullable inner => V.isAtom inner && legible true inner
  | .anyOf members => 2 ≤ members.length && members.all V.isMember && allLegible true members
  | .function ⟨[], params, result, []⟩ => allLegible closed params && legible closed result
  | .unary _ arg => legible closed arg
  | .map key value => legible closed key && legible closed value
  | t => V.isAtom t
def allLegible (closed : Bool) : List Ty → Bool
  | [] => true
  | t :: ts => legible closed t && allLegible closed ts
end

-- The name at the front of a text.
def nameOf (cs : List Char) : String := String.ofList (cs.takeWhile isNameChar)

def afterName (cs : List Char) : List Char := cs.dropWhile isNameChar

def readMember (cs : List Char) : Option (Ty × List Char) :=
  match V.lead? (nameOf cs), afterName cs with
  | some (.atom t), '?' :: rest => some (.nullable t, rest)
  | some (.atom t), rest => some (t, rest)
  | _, _ => none

-- The further members of a union, as far as there are any.
def readMembers : Nat → List Char → Option (List Ty × List Char)
  | 0, _ => none
  | fuel + 1, cs =>
      match cs with
      | ' ' :: '|' :: ' ' :: cs => do
          let (t, rest) ← V.readMember cs
          let (ts, rest) ← readMembers fuel rest
          return (t :: ts, rest)
      | cs => some ([], cs)

mutual
-- Reads a type from the front of a text.
def read : Nat → List Char → Option (Ty × List Char)
  | 0, _ => none
  | fuel + 1, cs => do
      match ← V.lead? (nameOf cs) with
      | .atom _ => do
          let (first, rest) ← V.readMember cs
          let (others, rest) ← V.readMembers fuel rest
          return (if others.isEmpty then first else .anyOf (first :: others), rest)
      | .param name => return (.param name, afterName cs)
      | .function => do
          let (params, rest) ← readParams fuel ((afterName cs).drop 1)
          let (result, rest) ← read fuel (rest.drop 4)
          return (.function (.plain params result), rest)
      | lead => do
          let (args, rest) ← readArgs fuel lead.arity (afterName cs)
          return (lead.build args, rest)
-- Reads so many arguments, each after a blank.
def readArgs : Nat → Nat → List Char → Option (List Ty × List Char)
  | 0, _, _ => none
  | _ + 1, 0, cs => some ([], cs)
  | fuel + 1, count + 1, cs => do
      let (t, rest) ← read fuel (cs.drop 1)
      let (ts, rest) ← readArgs fuel count rest
      return (t :: ts, rest)
-- Reads the parameters of a function up to the bracket that closes them.
def readParams : Nat → List Char → Option (List Ty × List Char)
  | 0, _ => none
  | fuel + 1, cs =>
      match cs with
      | ')' :: cs => some ([], cs)
      | cs => do
          let (t, rest) ← read fuel cs
          match rest with
          | ',' :: ' ' :: rest => do
              let (ts, rest) ← readParams fuel rest
              return (t :: ts, rest)
          | rest => return ([t], rest.drop 1)
end

-- What may follow a type in a text: no more of its last name, no question mark, and no
-- further member of a union.
def Ends (rest : List Char) : Prop :=
  (∀ c ∈ rest.head?, isNameChar c = false ∧ c ≠ '?') ∧ ¬ [' ', '|'] <+: rest

section Texts

theorem intercalate_cons {α : Type} (sep x : List α) (xs : List (List α)) :
    List.intercalate sep (x :: xs) = x ++ xs.flatMap (sep ++ ·) := by
  induction xs generalizing x with
  | nil => simp
  | cons y ys ih => simp [List.intercalate_cons_cons, ih]

theorem toList_spaced (head : String) (args : List String) :
    (spaced head args).toList = head.toList ++ args.flatMap fun arg => ' ' :: arg.toList := by
  cases args with
  | nil => simp [spaced]
  | cons arg args =>
      simp [spaced, String.toList_intercalate, intercalate_cons, List.flatMap_map]

theorem toList_render_anyOf (first : Ty) (others : List Ty) :
    (Ty.anyOf (first :: others)).render.toList =
      first.render.toList ++ others.flatMap fun t => ' ' :: '|' :: ' ' :: t.render.toList := by
  simp [Ty.render, String.toList_intercalate, intercalate_cons, List.flatMap_map]

theorem toList_render_function (params : List Ty) (result : Ty) :
    (Ty.function ⟨[], params, result, []⟩).render.toList =
      "fn".toList ++ '(' :: (List.intercalate [',', ' '] (params.map fun t => t.render.toList) ++
        ')' :: ' ' :: '-' :: '>' :: ' ' :: result.render.toList) := by
  simp [Ty.render, Ty.renderSignature, String.toList_intercalate, Function.comp_def]

end Texts

variable {V}

theorem nameOf_append {name : String} {rest : List Char} (hname : isName name = true)
    (hrest : ∀ c ∈ rest.head?, isNameChar c = false) :
    nameOf (name.toList ++ rest) = name ∧ afterName (name.toList ++ rest) = rest := by
  have hall : ∀ c ∈ name.toList, isNameChar c = true := by
    simp only [isName, Bool.and_eq_true] at hname
    exact List.all_eq_true.mp hname.2
  have htake : rest.takeWhile isNameChar = [] := by
    cases rest with
    | nil => rfl
    | cons c rest => simp [hrest c rfl]
  have hdrop : rest.dropWhile isNameChar = rest := by
    cases rest with
    | nil => rfl
    | cons c rest => simp [hrest c rfl]
  constructor
  · rw [nameOf, List.takeWhile_append_of_pos hall, htake, List.append_nil, String.ofList_toList]
  · rw [afterName, List.dropWhile_append_of_pos hall, hdrop]

theorem isAtom_iff {t : Ty} :
    V.isAtom t = true ↔ isName t.render = true ∧ V.lead? t.render = some (.atom t) := by
  simp [isAtom]

theorem isMember_of_isAtom {t : Ty} (h : V.isAtom t = true) : V.isMember t = true := by
  cases t with
  | nullable inner =>
      have hname := (isAtom_iff.mp h).1
      simp [isName, Ty.render, isNameChar] at hname
  | _ => exact h

theorem readMember_atom {t : Ty} (h : V.isAtom t = true) {rest : List Char}
    (hrest : ∀ c ∈ rest.head?, isNameChar c = false ∧ c ≠ '?') :
    V.readMember (t.render.toList ++ rest) = some (t, rest) := by
  obtain ⟨hname, hlead⟩ := isAtom_iff.mp h
  obtain ⟨hnameOf, hafter⟩ := nameOf_append hname fun c hc => (hrest c hc).1
  rw [readMember, hnameOf, hafter, hlead]
  cases rest with
  | nil => rfl
  | cons c rest =>
      have hmark : c ≠ '?' := (hrest c rfl).2
      split
      · simp_all
      · simp_all
      · simp_all

theorem readMember_render {t : Ty} (h : V.isMember t = true) {rest : List Char}
    (hrest : ∀ c ∈ rest.head?, isNameChar c = false ∧ c ≠ '?') :
    V.readMember (t.render.toList ++ rest) = some (t, rest) := by
  cases t with
  | nullable inner =>
      obtain ⟨hname, hlead⟩ := isAtom_iff.mp h
      obtain ⟨hnameOf, hafter⟩ : nameOf (inner.render.toList ++ '?' :: rest) = inner.render ∧
          afterName (inner.render.toList ++ '?' :: rest) = '?' :: rest :=
        nameOf_append hname (by simp; decide)
      have htext : (Ty.nullable inner).render.toList ++ rest =
          inner.render.toList ++ '?' :: rest := by
        simp [Ty.render]
      rw [htext, readMember, hnameOf, hafter, hlead]
      rfl
  | _ => exact readMember_atom h hrest

theorem readMembers_nil {fuel : Nat} {rest : List Char} (h : Ends rest) :
    V.readMembers (fuel + 1) rest = some ([], rest) := by
  rw [readMembers]
  rintro cs rfl
  exact h.2 ⟨_, rfl⟩

def membersText (members : List Ty) : List Char :=
  members.flatMap fun t => ' ' :: '|' :: ' ' :: t.render.toList

theorem readMembers_render {members : List Ty} (h : ∀ t ∈ members, V.isMember t = true)
    {fuel : Nat} (hfuel : (membersText members).length < fuel) {rest : List Char}
    (hrest : Ends rest) :
    V.readMembers fuel (membersText members ++ rest) = some (members, rest) := by
  induction members generalizing fuel with
  | nil =>
      obtain ⟨fuel, rfl⟩ : ∃ less, fuel = less + 1 := ⟨fuel - 1, by omega⟩
      exact readMembers_nil hrest
  | cons t members ih =>
      obtain ⟨fuel, rfl⟩ : ∃ less, fuel = less + 1 := ⟨fuel - 1, by omega⟩
      have htext : membersText (t :: members) ++ rest =
          ' ' :: '|' :: ' ' :: (t.render.toList ++ (membersText members ++ rest)) := by
        simp [membersText]
      have hstops : ∀ c ∈ (membersText members ++ rest).head?, isNameChar c = false ∧ c ≠ '?' := by
        cases members with
        | nil => simpa [membersText] using hrest.1
        | cons u members => simp [membersText]; decide
      have hlength : (membersText members).length < fuel := by
        simp [membersText] at hfuel ⊢
        omega
      rw [htext, readMembers]
      simp [readMember_render (h t List.mem_cons_self) hstops,
        ih (fun u hu => h u (List.mem_cons_of_mem _ hu)) hlength]

theorem lead?_member {t : Ty} (h : V.isMember t = true) {rest : List Char}
    (hrest : ∀ c ∈ rest.head?, isNameChar c = false ∧ c ≠ '?') :
    ∃ atom, V.lead? (nameOf (t.render.toList ++ rest)) = some (.atom atom) := by
  cases t with
  | nullable inner =>
      obtain ⟨hname, hlead⟩ := isAtom_iff.mp h
      have htext : (Ty.nullable inner).render.toList ++ rest =
          inner.render.toList ++ '?' :: rest := by
        simp [Ty.render]
      have hnameOf : nameOf (inner.render.toList ++ '?' :: rest) = inner.render :=
        (nameOf_append hname (by simp; decide)).1
      exact ⟨inner, by rw [htext, hnameOf, hlead]⟩
  | _ =>
      obtain ⟨hname, hlead⟩ := isAtom_iff.mp h
      exact ⟨_, by rw [(nameOf_append hname fun c hc => (hrest c hc).1).1, hlead]⟩

theorem toList_ne_nil {name : String} (h : isName name = true) : name.toList ≠ [] := by
  simp only [isName, Bool.and_eq_true, Bool.not_eq_true', List.isEmpty_eq_false_iff] at h
  exact h.1

theorem exists_name_of_isAtom {t : Ty} (h : V.isAtom t = true) :
    ∃ name tail, isName name = true ∧ t.render.toList = name.toList ++ tail :=
  ⟨t.render, [], (isAtom_iff.mp h).1, (List.append_nil _).symm⟩

theorem exists_name_of_isMember {t : Ty} (h : V.isMember t = true) :
    ∃ name tail, isName name = true ∧ t.render.toList = name.toList ++ tail := by
  cases t with
  | nullable inner => exact ⟨inner.render, ['?'], (isAtom_iff.mp h).1, by simp [Ty.render]⟩
  | _ => exact exists_name_of_isAtom h

-- Names, nullable names and unions are read in the same way.
theorem read_members {first : Ty} {others : List Ty} (hfirst : V.isMember first = true)
    (hothers : ∀ t ∈ others, V.isMember t = true) {fuel : Nat}
    (hfuel : (first.render.toList ++ membersText others).length < fuel) {rest : List Char}
    (hrest : Ends rest) :
    V.read fuel (first.render.toList ++ (membersText others ++ rest)) =
      some (if others.isEmpty then first else .anyOf (first :: others), rest) := by
  obtain ⟨fuel, rfl⟩ : ∃ less, fuel = less + 1 := ⟨fuel - 1, by omega⟩
  have hstops : ∀ c ∈ (membersText others ++ rest).head?, isNameChar c = false ∧ c ≠ '?' := by
    cases others with
    | nil => simpa [membersText] using hrest.1
    | cons u others => simp [membersText]; decide
  have hlength : (membersText others).length < fuel := by
    obtain ⟨name, tail, hname, htext⟩ := exists_name_of_isMember hfirst
    have hpositive := List.length_pos_iff.mpr (toList_ne_nil hname)
    simp only [htext, List.length_append] at hfuel
    omega
  obtain ⟨atom, hlead⟩ := lead?_member hfirst hstops
  rw [read, hlead]
  simp [readMember_render hfirst hstops, readMembers_render hothers hlength hrest]

def argsText (args : List Ty) : List Char := args.flatMap fun t => ' ' :: t.render.toList

theorem ends_nil : Ends [] := by simp [Ends]

theorem ends_cons {c : Char} (hname : isNameChar c = false) (hmark : c ≠ '?') (hblank : c ≠ ' ')
    (rest : List Char) : Ends (c :: rest) := by
  refine ⟨by simp [hname, hmark], ?_⟩
  rintro ⟨tail, htail⟩
  exact hblank (by simpa using (List.cons.inj htail).1.symm)

theorem exists_name_of_legible {closed : Bool} {t : Ty} (h : V.legible closed t = true) :
    ∃ name tail, isName name = true ∧ t.render.toList = name.toList ++ tail := by
  unfold legible at h
  split at h <;> try simp only [Bool.and_eq_true, decide_eq_true_eq] at h
  · exact ⟨_, [], h.1.2, (List.append_nil _).symm⟩
  · exact exists_name_of_isAtom h.1
  · exact exists_name_of_isAtom h
  · exact ⟨_, _, h.1.1.1, toList_spaced _ _⟩
  · exact ⟨_, _, h.1.1.1, toList_spaced _ _⟩
  · exact ⟨_, ['?'], (isAtom_iff.mp h.1).1, by simp [Ty.render]⟩
  · rename_i members
    cases members with
    | nil => simp at h
    | cons first others =>
        obtain ⟨name, tail, hname, htext⟩ :=
          exists_name_of_isMember (List.all_eq_true.mp h.1.2 first List.mem_cons_self)
        refine ⟨name, tail ++ membersText others, hname, ?_⟩
        rw [toList_render_anyOf, htext, List.append_assoc]
        rfl
  · exact ⟨"fn", _, by decide, toList_render_function _ _⟩
  · rename_i constructor arg
    exact ⟨constructor.name, ' ' :: arg.render.toList, by cases constructor <;> decide,
      by simp [Ty.render]⟩
  · rename_i key value
    exact ⟨"Map", ' ' :: (key.render.toList ++ ' ' :: value.render.toList), by decide,
      by simp [Ty.render]⟩
  · exact exists_name_of_isAtom h

theorem ends_args {closed : Bool} {args : List Ty} (h : V.allLegible closed args = true)
    {rest : List Char} (hrest : Ends rest) : Ends (argsText args ++ rest) := by
  cases args with
  | nil => exact hrest
  | cons t args =>
      simp only [allLegible, Bool.and_eq_true] at h
      obtain ⟨name, tail, hname, htext⟩ := exists_name_of_legible h.1
      obtain ⟨c, cs, hcs⟩ := List.exists_cons_of_ne_nil (toList_ne_nil hname)
      have hc : isNameChar c = true := by
        simp only [isName, hcs, List.all_cons, Bool.and_eq_true] at hname
        exact hname.2.1
      have htext : argsText (t :: args) ++ rest =
          ' ' :: c :: (cs ++ tail ++ (argsText args ++ rest)) := by
        simp [argsText, htext, hcs]
      rw [htext]
      refine ⟨by simp; decide, ?_⟩
      rintro ⟨after, hafter⟩
      obtain rfl : '|' = c := by simpa using (List.cons.inj (List.cons.inj hafter).2).1
      exact absurd hc (by decide)

theorem lead?_unary (constructor : Unary) : V.lead? constructor.name = some (.unary constructor) := by
  cases constructor <;> rfl

theorem lead?_map : V.lead? "Map" = some .map := rfl

theorem lead?_function : V.lead? "fn" = some .function := rfl

theorem read_constructor {name : String} {lead : Lead} (hname : isName name = true)
    (hlead : V.lead? name = some lead) (hargs : lead.takesArgs = true) {fuel : Nat} {args : List Ty}
    {rest : List Char} (hends : Ends (argsText args ++ rest))
    (hread : V.readArgs fuel lead.arity (argsText args ++ rest) = some (args, rest)) :
    V.read (fuel + 1) (name.toList ++ (argsText args ++ rest)) = some (lead.build args, rest) := by
  obtain ⟨hnameOf, hafter⟩ := nameOf_append hname fun c hc => (hends.1 c hc).1
  rw [read, hnameOf, hafter, hlead]
  cases lead with
  | atom | param | function => cases hargs
  | _ => simp [hread]

theorem read_member {t : Ty} (h : V.isMember t = true) {fuel : Nat}
    (hfuel : t.render.toList.length < fuel) {rest : List Char} (hrest : Ends rest) :
    V.read fuel (t.render.toList ++ rest) = some (t, rest) := by
  have hread : V.read fuel (t.render.toList ++ (membersText [] ++ rest)) = some (t, rest) :=
    read_members h (by simp) (by simpa [membersText] using hfuel) hrest
  exact hread

theorem readArgs_cons {t : Ty} {ts : List Ty} {fuel : Nat} {rest : List Char}
    (hfirst : V.read fuel (t.render.toList ++ (argsText ts ++ rest)) =
      some (t, argsText ts ++ rest))
    (hothers : V.readArgs fuel ts.length (argsText ts ++ rest) = some (ts, rest)) :
    V.readArgs (fuel + 1) (t :: ts).length (argsText (t :: ts) ++ rest) = some (t :: ts, rest) := by
  have htext : argsText (t :: ts) ++ rest = ' ' :: (t.render.toList ++ (argsText ts ++ rest)) := by
    simp [argsText]
  rw [htext, List.length_cons, readArgs, List.drop_one, List.tail_cons, hfirst]
  simp [hothers]

-- The text of a type does not begin with the bracket that closes a list of parameters.
theorem ne_close_of_legible {closed : Bool} {t : Ty} (h : V.legible closed t = true)
    (after cs : List Char) : t.render.toList ++ after ≠ ')' :: cs := by
  obtain ⟨name, tail, hname, htext⟩ := exists_name_of_legible h
  obtain ⟨c, rest, hrest⟩ := List.exists_cons_of_ne_nil (toList_ne_nil hname)
  intro heq
  rw [htext, hrest] at heq
  obtain rfl : c = ')' := (List.cons.inj heq).1
  simp [isName, hrest, isNameChar] at hname

theorem readParams_last {closed : Bool} {t : Ty} (h : V.legible closed t = true) {fuel : Nat}
    {rest : List Char}
    (hread : V.read fuel (t.render.toList ++ ')' :: rest) = some (t, ')' :: rest)) :
    V.readParams (fuel + 1) (t.render.toList ++ ')' :: rest) = some ([t], rest) := by
  rw [readParams, hread]
  · rfl
  · exact ne_close_of_legible h _

theorem readParams_more {closed : Bool} {t : Ty} (h : V.legible closed t = true) {fuel : Nat}
    {ts : List Ty} {after rest : List Char}
    (hread : V.read fuel (t.render.toList ++ ',' :: ' ' :: after) = some (t, ',' :: ' ' :: after))
    (hothers : V.readParams fuel after = some (ts, rest)) :
    V.readParams (fuel + 1) (t.render.toList ++ ',' :: ' ' :: after) = some (t :: ts, rest) := by
  rw [readParams, hread]
  · simp [hothers]
  · exact ne_close_of_legible h _

mutual
theorem read_render {closed : Bool} : (t : Ty) → V.legible closed t = true → {fuel : Nat} →
    t.render.toList.length < fuel → {rest : List Char} → Ends rest →
    V.read fuel (t.render.toList ++ rest) = some (t, rest)
  | .param name, h, fuel, hfuel, rest, hrest => by
      obtain ⟨fuel, rfl⟩ : ∃ less, fuel = less + 1 := ⟨fuel - 1, by omega⟩
      simp only [legible, Bool.and_eq_true, decide_eq_true_eq] at h
      obtain ⟨hnameOf, hafter⟩ := nameOf_append h.1.2 fun c hc => (hrest.1 c hc).1
      simp only [Ty.render]
      rw [read, hnameOf, hafter, h.2]
      rfl
  | .inst name (arg :: args), h, fuel, hfuel, rest, hrest => by
      obtain ⟨fuel, rfl⟩ : ∃ less, fuel = less + 1 := ⟨fuel - 1, by omega⟩
      simp only [legible, Bool.and_eq_true, decide_eq_true_eq] at h
      obtain ⟨⟨⟨hname, hlead⟩, harg⟩, hargs⟩ := h
      have hall : V.allLegible closed (arg :: args) = true := by simp [allLegible, harg, hargs]
      have htext : (Ty.inst name (arg :: args)).render.toList =
          name.toList ++ argsText (arg :: args) := by
        rw [Ty.render, Ty.renderAll_eq, toList_spaced, argsText, List.flatMap_map]
      have hpositive := List.length_pos_iff.mpr (toList_ne_nil hname)
      have hlength : (argsText (arg :: args)).length < fuel := by
        rw [htext, List.length_append] at hfuel
        omega
      rw [htext, List.append_assoc]
      exact read_constructor hname hlead rfl (ends_args hall hrest)
        (readArgs_render (arg :: args) hall hlength hrest)
  | .applied base args, h, fuel, hfuel, rest, hrest => by
      obtain ⟨fuel, rfl⟩ : ∃ less, fuel = less + 1 := ⟨fuel - 1, by omega⟩
      cases base with
      | declared family name params =>
          simp only [legible, Bool.and_eq_true, decide_eq_true_eq] at h
          obtain ⟨⟨⟨hname, hlead⟩, harity⟩, hargs⟩ := h
          have htext : (Ty.applied (.declared family name params) args).render.toList =
              name.toList ++ argsText args := by
            rw [Ty.render, Ty.renderAll_eq, toList_spaced, argsText, List.flatMap_map, Ty.render]
          have hpositive := List.length_pos_iff.mpr (toList_ne_nil hname)
          have hlength : (argsText args).length < fuel := by
            rw [htext, List.length_append] at hfuel
            omega
          have hread := readArgs_render args hargs hlength hrest
          rw [harity] at hread
          rw [htext, List.append_assoc]
          exact read_constructor hname hlead rfl (ends_args hargs hrest) hread
      | _ => exact read_member (isMember_of_isAtom h) hfuel hrest
  | .function ⟨generics, params, result, wheres⟩, h, fuel, hfuel, rest, hrest => by
      match generics, wheres with
      | [], [] =>
          simp only [legible, Bool.and_eq_true] at h
          have htext := toList_render_function params result
          have hname : "fn".toList.length = 2 := rfl
          rw [htext, List.length_append] at hfuel
          simp only [List.length_append, List.length_cons] at hfuel
          obtain ⟨fuel, rfl⟩ : ∃ less, fuel = less + 1 := ⟨fuel - 1, by omega⟩
          have hparams : V.readParams fuel _ = some (params, _) :=
            readParams_render params h.1 (by omega)
              (' ' :: '-' :: '>' :: ' ' :: (result.render.toList ++ rest))
          have hresult : V.read fuel _ = some (result, _) := read_render result h.2 (by omega) hrest
          have hwhole : (Ty.function ⟨[], params, result, []⟩).render.toList ++ rest =
              "fn".toList ++ '(' :: (List.intercalate [',', ' ']
                (params.map fun t => t.render.toList) ++
                ')' :: ' ' :: '-' :: '>' :: ' ' :: (result.render.toList ++ rest)) := by
            rw [htext]
            simp only [List.append_assoc, List.cons_append]
          have hstops : ∀ cs : List Char, ∀ c, ('(' :: cs).head? = some c → isNameChar c = false := by
            intro cs c hc
            cases hc
            decide
          obtain ⟨hnameOf, hafter⟩ := nameOf_append (show isName "fn" = true by decide) (hstops _)
          rw [hwhole, read, hnameOf, hafter, lead?_function]
          simp only [Option.bind_eq_bind, Option.bind_some, hparams, List.drop_succ_cons,
            List.drop_zero, hresult]
          rfl
      | _ :: _, _ => exact read_member (isMember_of_isAtom h) hfuel hrest
      | [], _ :: _ => exact read_member (isMember_of_isAtom h) hfuel hrest
  | .unary constructor arg, h, fuel, hfuel, rest, hrest => by
      have hname : isName constructor.name = true := by cases constructor <;> decide
      have hpositive := List.length_pos_iff.mpr (toList_ne_nil hname)
      have htext : (Ty.unary constructor arg).render.toList =
          constructor.name.toList ++ argsText [arg] := by
        simp [Ty.render, argsText]
      rw [htext, List.length_append] at hfuel
      simp only [argsText, List.flatMap_cons, List.flatMap_nil, List.append_nil,
        List.length_cons] at hfuel
      obtain ⟨fuel, rfl⟩ : ∃ less, fuel = less + 3 := ⟨fuel - 3, by omega⟩
      simp only [legible] at h
      have hall : V.allLegible closed [arg] = true := by simpa [allLegible] using h
      rw [htext, List.append_assoc]
      exact read_constructor hname (lead?_unary constructor) rfl (ends_args hall hrest)
        (readArgs_cons (read_render arg h (by omega) hrest) rfl)
  | .map key value, h, fuel, hfuel, rest, hrest => by
      have htext : (Ty.map key value).render.toList = "Map".toList ++ argsText [key, value] := by
        simp [Ty.render, argsText]
      have hname : "Map".toList.length = 3 := rfl
      rw [htext, List.length_append] at hfuel
      simp only [argsText, List.flatMap_cons, List.flatMap_nil, List.append_nil,
        List.length_append, List.length_cons] at hfuel
      obtain ⟨fuel, rfl⟩ : ∃ less, fuel = less + 4 := ⟨fuel - 4, by omega⟩
      simp only [legible, Bool.and_eq_true] at h
      have hvalue : V.allLegible closed [value] = true := by simpa [allLegible] using h.2
      have hall : V.allLegible closed [key, value] = true := by simp [allLegible, h.1, h.2]
      rw [htext, List.append_assoc]
      refine read_constructor (by decide) lead?_map rfl (ends_args hall hrest)
        (readArgs_cons (read_render key h.1 (by omega) (ends_args hvalue hrest))
          (readArgs_cons (read_render value h.2 (by omega) hrest) rfl))
  | .anyOf members, h, fuel, hfuel, rest, hrest => by
      simp only [legible, Bool.and_eq_true, decide_eq_true_eq] at h
      obtain ⟨⟨hlength, hmembers⟩, -⟩ := h
      match members with
      | first :: second :: others =>
          have hall := List.all_eq_true.mp hmembers
          rw [toList_render_anyOf] at hfuel ⊢
          rw [List.append_assoc]
          exact read_members (hall first List.mem_cons_self)
            (fun t ht => hall t (List.mem_cons_of_mem _ ht)) hfuel hrest
  | .nullable inner, h, fuel, hfuel, rest, hrest => by
      simp only [legible, Bool.and_eq_true] at h
      have hmember : V.isMember (.nullable inner) = true := h.1
      exact read_member hmember hfuel hrest
  | .alias name target, h, fuel, hfuel, rest, hrest => by
      simp only [legible, Bool.and_eq_true] at h
      exact read_member (isMember_of_isAtom h.1) hfuel hrest
  | .unknown, h, fuel, hfuel, rest, hrest | .scalar _, h, fuel, hfuel, rest, hrest
  | .declared _ _ _, h, fuel, hfuel, rest, hrest | .inst name [], h, fuel, hfuel, rest, hrest
  | .overload _, h, fuel, hfuel, rest, hrest =>
      read_member (isMember_of_isAtom h) hfuel hrest
theorem readArgs_render {closed : Bool} : (ts : List Ty) → V.allLegible closed ts = true →
    {fuel : Nat} → (argsText ts).length < fuel → {rest : List Char} → Ends rest →
    V.readArgs fuel ts.length (argsText ts ++ rest) = some (ts, rest)
  | [], _, fuel, hfuel, rest, hrest => by
      obtain ⟨fuel, rfl⟩ : ∃ less, fuel = less + 1 := ⟨fuel - 1, by omega⟩
      rfl
  | t :: ts, h, fuel, hfuel, rest, hrest => by
      obtain ⟨fuel, rfl⟩ : ∃ less, fuel = less + 1 := ⟨fuel - 1, by omega⟩
      simp only [allLegible, Bool.and_eq_true] at h
      have hlength : t.render.toList.length < fuel ∧ (argsText ts).length < fuel := by
        simp only [argsText, List.flatMap_cons, List.length_append, List.length_cons] at hfuel ⊢
        omega
      exact readArgs_cons (read_render t h.1 hlength.1 (ends_args h.2 hrest))
        (readArgs_render ts h.2 hlength.2 hrest)
theorem readParams_render {closed : Bool} : (ts : List Ty) → V.allLegible closed ts = true →
    {fuel : Nat} →
    (List.intercalate [',', ' '] (ts.map fun t => t.render.toList)).length + 1 < fuel →
    (rest : List Char) →
    V.readParams fuel (List.intercalate [',', ' '] (ts.map fun t => t.render.toList) ++
      ')' :: rest) = some (ts, rest)
  | [], _, fuel, hfuel, rest => by
      obtain ⟨fuel, rfl⟩ : ∃ less, fuel = less + 1 := ⟨fuel - 1, by omega⟩
      rfl
  | [t], h, fuel, hfuel, rest => by
      obtain ⟨fuel, rfl⟩ : ∃ less, fuel = less + 1 := ⟨fuel - 1, by omega⟩
      simp only [allLegible, Bool.and_eq_true] at h
      simp only [List.map_cons, List.map_nil, List.intercalate_singleton] at hfuel ⊢
      exact readParams_last h.1 (read_render t h.1 (by omega)
        (ends_cons (by decide) (by decide) (by decide) _))
  | t :: u :: ts, h, fuel, hfuel, rest => by
      obtain ⟨fuel, rfl⟩ : ∃ less, fuel = less + 1 := ⟨fuel - 1, by omega⟩
      simp only [allLegible, Bool.and_eq_true] at h
      have hothers : V.allLegible closed (u :: ts) = true := by simp [allLegible, h.2]
      have htext : List.intercalate [',', ' '] ((t :: u :: ts).map fun t => t.render.toList) =
          t.render.toList ++ ',' :: ' ' ::
            List.intercalate [',', ' '] ((u :: ts).map fun t => t.render.toList) := by
        simp [List.intercalate]
      rw [htext] at hfuel ⊢
      simp only [List.length_append, List.length_cons] at hfuel
      rw [List.append_assoc]
      exact readParams_more h.1 (read_render t h.1 (by omega)
        (ends_cons (by decide) (by decide) (by decide) _))
        (readParams_render (u :: ts) hothers (by omega) rest)
end

section Identity

variable {closed closed' : Bool}

-- Two texts that begin with types begin with the same type if they are the same.
theorem render_append_inj {t u : Ty} (ht : V.legible closed t = true)
    (hu : V.legible closed' u = true) {rest rest' : List Char} (hrest : Ends rest)
    (hrest' : Ends rest') (heq : t.render.toList ++ rest = u.render.toList ++ rest') :
    t = u ∧ rest = rest' := by
  have hread := read_render t ht (show _ < t.render.toList.length + u.render.toList.length + 1 by
    omega) hrest
  have hread' := read_render u hu (show _ < t.render.toList.length + u.render.toList.length + 1 by
    omega) hrest'
  rw [heq, hread'] at hread
  simpa [eq_comm] using hread

theorem argsText_inj {ts us : List Ty} (ht : V.allLegible closed ts = true)
    (hu : V.allLegible closed' us = true) (heq : argsText ts = argsText us) : ts = us := by
  induction ts generalizing us with
  | nil =>
      cases us with
      | nil => rfl
      | cons u us => simp [argsText] at heq
  | cons t ts ih =>
      cases us with
      | nil => simp [argsText] at heq
      | cons u us =>
          simp only [allLegible, Bool.and_eq_true] at ht hu
          have htexts : t.render.toList ++ (argsText ts ++ []) =
              u.render.toList ++ (argsText us ++ []) := by
            simpa [argsText] using heq
          obtain ⟨rfl, hrests⟩ := render_append_inj ht.1 hu.1 (ends_args ht.2 ends_nil)
            (ends_args hu.2 ends_nil) htexts
          rw [ih ht.2 hu.2 (by simpa using hrests)]

-- A goal that is written in the vocabulary.
structure LegibleGoal (V : Vocabulary) (goal : Goal) : Prop where
  subject : V.legible false goal.subject = true
  interface : isName goal.interface = true
  args : V.allLegible false goal.args = true
  -- The target of a blanket implementation is asked for without arguments.
  args_of_blanket : goal.blanket = true → goal.args = []

-- What follows the name of the interface in the text of a goal.
def goalEnd (goal : Goal) : List Char :=
  if goal.blanket then " (blanket target)".toList else argsText goal.args

theorem toList_key (goal : Goal) :
    goal.key.toList = goal.subject.render.toList ++ ':' :: ' ' ::
      (goal.interface.toList ++ goalEnd goal) := by
  rw [goal.key_eq, goalText, goalEnd]
  split
  · simp
  · simp [interfaceLabel, toList_spaced, argsText, List.flatMap_map]

theorem goalEnd_stops {goal : Goal} (h : V.LegibleGoal goal) :
    ∀ c ∈ (goalEnd goal).head?, isNameChar c = false := by
  intro c hc
  rw [goalEnd] at hc
  split at hc
  · cases hc
    decide
  · have hends := ends_args h.args ends_nil
    rw [List.append_nil] at hends
    exact (hends.1 c hc).1

theorem args_ne_blanket {args : List Ty} (h : V.allLegible closed args = true) :
    argsText args ≠ " (blanket target)".toList := by
  cases args with
  | nil => simp [argsText]
  | cons t ts =>
      simp only [allLegible, Bool.and_eq_true] at h
      obtain ⟨name, tail, hname, htext⟩ := exists_name_of_legible h.1
      obtain ⟨c, rest, hrest⟩ := List.exists_cons_of_ne_nil (toList_ne_nil hname)
      intro heq
      have hfirst : c = '(' := by
        simp only [argsText, List.flatMap_cons, htext, hrest] at heq
        exact (List.cons.inj (List.cons.inj heq).2).1
      simp [isName, hrest, isNameChar, hfirst] at hname

-- A goal is known by its text.
theorem key_inj {a b : Goal} (ha : V.LegibleGoal a) (hb : V.LegibleGoal b)
    (heq : a.key = b.key) : a = b := by
  have htexts := congrArg String.toList heq
  rw [toList_key, toList_key] at htexts
  obtain ⟨hsubject, hrest⟩ := render_append_inj ha.subject hb.subject
    (ends_cons (by decide) (by decide) (by decide) _)
    (ends_cons (by decide) (by decide) (by decide) _) htexts
  have hrests : a.interface.toList ++ goalEnd a = b.interface.toList ++ goalEnd b := by
    simpa using hrest
  obtain ⟨hname, hend⟩ := nameOf_append ha.interface (goalEnd_stops ha)
  obtain ⟨hname', hend'⟩ := nameOf_append hb.interface (goalEnd_stops hb)
  rw [hrests, hname'] at hname
  rw [hrests, hend'] at hend
  have hblanket : a.blanket = b.blanket ∧ a.args = b.args := by
    unfold goalEnd at hend
    cases hba : a.blanket <;> cases hbb : b.blanket <;> simp only [hba, hbb] at hend
    · exact ⟨rfl, argsText_inj ha.args hb.args hend.symm⟩
    · exact absurd hend.symm (args_ne_blanket ha.args)
    · exact absurd hend (args_ne_blanket hb.args)
    · exact ⟨rfl, by rw [ha.args_of_blanket hba, hb.args_of_blanket hbb]⟩
  obtain ⟨subject, interface, args, blanket, key, hkey⟩ := a
  obtain ⟨subject', interface', args', blanket', key', hkey'⟩ := b
  obtain ⟨rfl, rfl⟩ : subject = subject' ∧ interface = interface' := ⟨hsubject, hname.symm⟩
  obtain ⟨rfl, rfl⟩ : blanket = blanket' ∧ args = args' := hblanket
  obtain rfl : key = key' := heq
  rfl

end Identity

end Vocabulary

end Conformance
