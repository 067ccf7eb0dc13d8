import Conformance.Proofs.AliasMatching
import Conformance.Proofs.Instantiation

namespace Conformance

-- Two substitutions in turn are one substitution. What makes this more than a rule about names is
-- that an application is contracted as soon as its constructor is a built-in one, which may be in
-- the first turn or in the second, and that a substitution without names contracts nothing.

namespace Bindings

variable {α : Type}

theorem find_append (name : String) (xs ys : List (String × α)) :
    find name (xs ++ ys) = (find name xs).or (find name ys) := by
  induction xs with
  | nil => rfl
  | cons entry rest ih =>
      rw [List.cons_append, find, find, ih]
      split <;> rfl

theorem find_filter (keep : String → Bool) (name : String) (entries : List (String × α)) :
    find name (entries.filter fun entry => keep entry.1) =
      if keep name then find name entries else none := by
  induction entries with
  | nil => simp [find]
  | cons entry rest ih =>
      by_cases hname : entry.1 = name
      · subst hname
        cases hkeep : keep entry.1 <;> simp [find, hkeep, ih]
      · cases hkeep : keep entry.1 <;> simp [find, hkeep, ih, hname]

end Bindings

namespace Substitution

-- What a substitution has to say of each name in order to do the work of two in turn.
def Composes (both first second : Substitution) : Prop :=
  ∀ name, both.get? name = ((first.get? name).map (·.substitute second)).or (second.get? name)

def andThen (first second : Substitution) : Substitution :=
  ⟨(first.map (·.substitute second)).entries ++
    second.entries.filter fun entry => !first.contains entry.1⟩

variable {first second both : Substitution}

theorem composes_andThen (first second : Substitution) :
    (first.andThen second).Composes first second := by
  intro name
  have hfirst := Bindings.get?_map (·.substitute second) first name
  have hsecond := Bindings.find_filter (fun name => !first.contains name) name second.entries
  rw [Bindings.get?] at hfirst
  rw [andThen, Bindings.get?, Bindings.find_append, hfirst, hsecond, Bindings.contains]
  cases first.get? name <;> rfl

-- The composite is empty only if nothing is done in either turn.
theorem Composes.isEmpty_iff (h : both.Composes first second) :
    both.isEmpty = true ↔ first.isEmpty = true ∧ second.isEmpty = true := by
  simp [Bindings.isEmpty_iff, h _, forall_and]

theorem Composes.standIn (h : both.Composes first second) (hsecond : second.isEmpty = false)
    (name : String) : (Ty.standIn first name).instantiate second = Ty.standIn both name := by
  rw [Ty.standIn, Ty.standIn, h name]
  cases first.get? name with
  | none => rfl
  | some t => simp [Ty.substitute, hsecond]

end Substitution

namespace Ty

variable {first second both : Substitution}

-- A type becomes the same under substitutions that say the same of every name.
theorem substitute_congr (h : ∀ name, first.get? name = second.get? name) (t : Ty) :
    t.substitute first = t.substitute second := by
  have hempty : first.isEmpty = second.isEmpty := by
    rw [Bool.eq_iff_iff, Bindings.isEmpty_iff, Bindings.isEmpty_iff]
    simp only [h]
  rw [substitute, substitute, hempty, instantiate_congr t fun name _ => h name]

theorem substitute_empty {s : Substitution} (h : s.isEmpty = true) (t : Ty) :
    t.substitute s = t := by
  rw [substitute, if_pos h]

theorem substitute_substitute (h : both.Composes first second) (t : Ty) :
    (t.substitute first).substitute second = t.substitute both := by
  cases hsecond : second.isEmpty with
  | true =>
      rw [substitute_empty hsecond]
      refine substitute_congr (fun name => ?_) t
      have hnone := Bindings.isEmpty_iff.mp hsecond name
      simp [h name, hnone, substitute_empty hsecond]
  | false =>
      cases hfirst : first.isEmpty with
      | true =>
          rw [substitute_empty hfirst]
          refine substitute_congr (fun name => ?_) t
          simp [h name, Bindings.isEmpty_iff.mp hfirst name]
      | false =>
          have hboth : both.isEmpty = false := by
            rw [← Bool.not_eq_true, h.isEmpty_iff]
            simp [hsecond]
          rw [substitute_known hfirst, substitute_known hsecond, substitute_known hboth]
          exact instantiate_instantiate t fun name _ => h.standIn hsecond name

theorem substitute_function (sig : Signature Ty) (s : Substitution) :
    (Ty.function sig).substitute s = .function (sig.substitute s) := by
  rw [substitute, Signature.substitute]
  split <;> rfl

end Ty

-- Substituting twice is substituting once, in types as well as in signatures with their bounds and
-- where-clauses.
theorem substitute_in_turn {both first second : Substitution} (h : both.Composes first second) :
    (∀ t : Ty, (t.substitute first).substitute second = t.substitute both) ∧
      ∀ sig : Signature Ty, (sig.substitute first).substitute second = sig.substitute both := by
  refine ⟨Ty.substitute_substitute h, fun sig => ?_⟩
  have hfunction := Ty.substitute_substitute h (.function sig)
  rw [Ty.substitute_function, Ty.substitute_function, Ty.substitute_function] at hfunction
  exact Ty.function.inj hfunction

namespace TwoTurns

-- An element in a container of any kind.
def contained : Ty := .applied (.param "M") [.param "A"]

def renamed : Substitution := Bindings.ofList [("M", .param "N"), ("A", .param "B")]

def chosen : Substitution :=
  Bindings.ofList [("N", .unary .array .unknown), ("B", .string), ("A", .nil)]

end TwoTurns

open TwoTurns in
-- The container becomes an array in the second turn only, and the name that both turns bind is
-- taken from the first.
theorem contained_in_array :
    (renamed.andThen chosen).Composes renamed chosen ∧
      (renamed.andThen chosen).names = ["M", "A", "N", "B"] ∧
      contained.substitute renamed = .applied (.param "N") [.param "B"] ∧
      (contained.substitute renamed).substitute chosen = .unary .array .string ∧
      contained.substitute (renamed.andThen chosen) = .unary .array .string := by
  have hcomposes := Substitution.composes_andThen renamed chosen
  have hboth : contained.substitute (renamed.andThen chosen) = .unary .array .string := by
    decide +kernel
  refine ⟨hcomposes, by decide +kernel, by decide +kernel, ?_, hboth⟩
  rw [(substitute_in_turn hcomposes).1, hboth]

end Conformance
