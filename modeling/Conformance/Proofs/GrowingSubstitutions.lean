import Conformance.Proofs.MatchedNames
import Conformance.Ty.Traits

namespace Conformance

-- A match only adds to what is known. Names keep their places and what they are known to stand for;
-- what is new comes after them, and belongs to parameters of the target.

namespace Bindings

variable {α : Type} {name : String} {entries : List (String × α)}

theorem find_eq_none_iff : find name entries = none ↔ name ∉ entries.map Prod.fst := by
  induction entries with
  | nil => simp [find]
  | cons entry rest ih =>
      by_cases hname : entry.1 = name
      · simp [find, hname]
      · simp [find, hname, ih, Ne.symm hname]

-- A new name comes last.
theorem put_new (h : find name entries = none) (value : α) :
    put name value entries = entries ++ [(name, value)] := by
  induction entries with
  | nil => rfl
  | cons entry rest ih =>
      by_cases hname : entry.1 = name
      · simp [find, hname] at h
      · rw [find, if_neg hname] at h
        rw [put, if_neg hname, ih h, List.cons_append]

-- A name that is bound already gets its value in its place.
theorem put_known {old : α} (h : find name entries = some old) (value : α) :
    ∃ before after, entries = before ++ (name, old) :: after ∧
      put name value entries = before ++ (name, value) :: after := by
  induction entries with
  | nil => cases h
  | cons entry rest ih =>
      obtain ⟨key, first⟩ := entry
      rw [find] at h
      by_cases hname : key = name
      · subst hname
        rw [if_pos rfl] at h
        obtain rfl := Option.some.inj h
        exact ⟨[], rest, rfl, by rw [put, if_pos rfl, List.nil_append]⟩
      · rw [if_neg hname] at h
        obtain ⟨before, after, hentries, hput⟩ := ih h
        refine ⟨(key, first) :: before, after, by rw [hentries, List.cons_append], ?_⟩
        rw [put, if_neg hname, hput, List.cons_append]

end Bindings

namespace Substitution

-- What becomes of a substitution while some names are found out.
structure Grows (names : List String) (s s' : Substitution) : Prop where
  -- Every name stays in its place. It changes its meaning only from unknown to known.
  kept : ∀ (i : Nat) (name : String) (t : Ty), s.entries[i]? = some (name, t) →
    ∃ t' : Ty, s'.entries[i]? = some (name, t') ∧
      (t' = t ∨ name ∈ names ∧ t = .unknown ∧ t' ≠ .unknown)
  -- What follows is new and known.
  added : ∀ (i : Nat) (name : String) (t : Ty), s.entries.length ≤ i →
    s'.entries[i]? = some (name, t) → name ∈ names ∧ name ∉ s.names ∧ t ≠ .unknown

namespace Grows

variable {names names' : List String} {s s' s'' : Substitution}

theorem refl (names : List String) (s : Substitution) : Grows names s s where
  kept _ _ t h := ⟨t, h, .inl rfl⟩
  added i _ _ hi h := by
    rw [List.getElem?_eq_none hi] at h
    cases h

theorem mono (h : Grows names s s') (hsub : names ⊆ names') : Grows names' s s' where
  kept i name t hi := by
    obtain ⟨t', ht', hvalue⟩ := h.kept i name t hi
    exact ⟨t', ht', hvalue.imp_right fun hnew => ⟨hsub hnew.1, hnew.2⟩⟩
  added i name t hi ht := by
    obtain ⟨hname, hnew⟩ := h.added i name t hi ht
    exact ⟨hsub hname, hnew⟩

theorem names_subset (h : Grows names s s') : s.names ⊆ s'.names := by
  intro name hname
  obtain ⟨⟨key, t⟩, hmem, rfl⟩ := List.mem_map.mp hname
  obtain ⟨i, hi⟩ := List.getElem?_of_mem hmem
  obtain ⟨t', ht', -⟩ := h.kept i key t hi
  exact List.mem_map.mpr ⟨(key, t'), List.mem_of_getElem? ht', rfl⟩

theorem trans (h : Grows names s s') (h' : Grows names s' s'') : Grows names s s'' where
  kept i name t hi := by
    obtain ⟨t', hi', hvalue⟩ := h.kept i name t hi
    obtain ⟨t'', hi'', hvalue'⟩ := h'.kept i name t' hi'
    refine ⟨t'', hi'', ?_⟩
    obtain rfl | ⟨hname, rfl, hknown⟩ := hvalue
    · exact hvalue'
    · obtain rfl | ⟨-, hunknown, -⟩ := hvalue'
      · exact .inr ⟨hname, rfl, hknown⟩
      · exact absurd hunknown hknown
  added i name t hi ht := by
    by_cases hlength : s'.entries.length ≤ i
    · obtain ⟨hname, hnew, hknown⟩ := h'.added i name t hlength ht
      exact ⟨hname, fun hold => hnew (h.names_subset hold), hknown⟩
    · -- The name was added in the first turn, and the second left it as it was.
      obtain ⟨⟨key, t'⟩, hi'⟩ : ∃ entry, s'.entries[i]? = some entry :=
        ⟨_, List.getElem?_eq_getElem (by omega)⟩
      obtain ⟨hname, hnew, hknown⟩ := h.added i key t' hi hi'
      obtain ⟨t'', hi'', hvalue⟩ := h'.kept i key t' hi'
      obtain ⟨rfl, rfl⟩ : key = name ∧ t'' = t := by simpa [hi''] using ht
      obtain rfl | ⟨-, hunknown, -⟩ := hvalue
      · exact ⟨hname, hnew, hknown⟩
      · exact absurd hunknown hknown

-- Where there is nothing to find out, nothing changes.
theorem eq_of_nil (h : Grows [] s s') : s' = s := by
  obtain ⟨entries⟩ := s
  obtain ⟨entries'⟩ := s'
  congr 1
  refine List.ext_getElem? fun i => ?_
  cases hi : entries[i]? with
  | some entry =>
      obtain ⟨t', ht', hvalue⟩ := h.kept i entry.1 entry.2 hi
      obtain rfl : t' = entry.2 := hvalue.resolve_right fun hnew => by cases hnew.1
      exact ht'
  | none =>
      cases hi' : entries'[i]? with
      | none => rfl
      | some entry =>
          have hadded := h.added i entry.1 entry.2 (List.getElem?_eq_none_iff.mp hi) hi'
          cases hadded.1

theorem insert_new {name : String} {t : Ty} (hname : name ∈ names) (ht : t ≠ .unknown)
    (h : s.get? name = none) : Grows names s (s.insert name t) := by
  have hentries : (s.insert name t).entries = s.entries ++ [(name, t)] := Bindings.put_new h t
  refine ⟨fun i key old hi => ?_, fun i key new hi hnew => ?_⟩
  · have hlt : i < s.entries.length := (List.getElem?_eq_some_iff.mp hi).1
    rw [hentries, List.getElem?_append_left hlt]
    exact ⟨old, hi, .inl rfl⟩
  · rw [hentries, List.getElem?_append_right hi, List.getElem?_singleton] at hnew
    split at hnew
    · obtain ⟨rfl, rfl⟩ : name = key ∧ t = new := by simpa using hnew
      exact ⟨hname, Bindings.find_eq_none_iff.mp h, ht⟩
    · cases hnew

theorem insert_open {name : String} {t : Ty} (hname : name ∈ names) (ht : t ≠ .unknown)
    (h : s.get? name = some .unknown) : Grows names s (s.insert name t) := by
  obtain ⟨before, after, hentries, hput⟩ := Bindings.put_known h t
  replace hput : (s.insert name t).entries = before ++ (name, t) :: after := hput
  refine ⟨fun i key old hi => ?_, fun i key new hi hnew => ?_⟩
  · rw [hentries, List.getElem?_append] at hi
    rw [hput, List.getElem?_append]
    split at hi
    · rename_i hlt
      rw [if_pos hlt]
      exact ⟨old, hi, .inl rfl⟩
    · rename_i hge
      rw [if_neg hge]
      cases hplace : i - before.length with
      | zero =>
          rw [hplace] at hi
          obtain ⟨rfl, rfl⟩ : name = key ∧ .unknown = old := by simpa using hi
          exact ⟨t, rfl, .inr ⟨hname, rfl, ht⟩⟩
      | succ k =>
          rw [hplace] at hi
          exact ⟨old, hi, .inl rfl⟩
  · rw [hput, List.getElem?_eq_none] at hnew
    · cases hnew
    · simpa [hentries] using hi

end Grows

end Substitution

namespace Ty

open Substitution (Grows)

variable {target t : Ty} {s : Substitution} {m : Match}

-- One step of a match.
theorem bindParam_grows {names : List String} {name : String} (hname : name ∈ names)
    (ht : t.isUnknown = false) (h : bindParam name t s = some m) :
    Grows names s m.substitution := by
  have hknown : t ≠ .unknown := by
    rintro rfl
    cases ht
  rw [bindParam] at h
  split at h
  · obtain rfl := Option.some.inj h
    exact .insert_open hname hknown ‹_›
  · split at h
    · obtain rfl := Option.some.inj h
      exact .refl names s
    · cases h
  · obtain rfl := Option.some.inj h
    exact .insert_new hname hknown ‹_›

-- A whole match, over the parameters that it can meet.
theorem unify_grows (h : unify target t s = some m) : Grows target.metNames s m.substitution := by
  refine unify_keeps_met (I := Grows target.metNames s) hereditary_true target ⟨?_, ?_⟩ trivial
    (.refl _ s) m h
  · exact fun name hname t _ _ ht hs found hfound => hs.trans (bindParam_grows hname ht hfound)
  · exact fun name hname _ _ t _ _ _ ht hs found hfound =>
      hs.trans (bindParam_grows hname ht hfound)

mutual
-- A match meets no parameter where none is used.
theorem metNames_eq_nil : (t : Ty) → t.usesParams = false → t.metNames = []
  | .param _, h => by cases h
  | .applied base args, h => by
      obtain ⟨happlied, hargs⟩ := Bool.or_eq_false_iff.mp h
      have hbase : base.paramName? = none := by
        cases base with
        | param => cases happlied
        | _ => rfl
      rw [metNames, hbase, metNamesOfAll_eq_nil args hargs]
      rfl
  | .inst _ args, h => metNamesOfAll_eq_nil args h
  | .anyOf members, h => metNamesOfAll_eq_nil members h
  | .alias _ target, h => metNames_eq_nil target h
  | .nullable inner, h => metNames_eq_nil inner h
  | .function sig, h => metNamesOfSignature_eq_nil sig h
  | .unary _ arg, h => metNames_eq_nil arg h
  | .map key value, h => by
      rw [usesParams, Bool.or_eq_false_iff] at h
      rw [metNames, metNames_eq_nil key h.1, metNames_eq_nil value h.2, List.append_nil]
  | .unknown, _ | .scalar _, _ | .declared _ _ _, _ | .overload _, _ => rfl
theorem metNamesOfAll_eq_nil : (ts : List Ty) → anyUsesParams ts = false → metNamesOfAll ts = []
  | [], _ => rfl
  | t :: ts, h => by
      rw [anyUsesParams, Bool.or_eq_false_iff] at h
      rw [metNamesOfAll, metNames_eq_nil t h.1, metNamesOfAll_eq_nil ts h.2, List.append_nil]
theorem metNamesOfSignature_eq_nil : (sig : Signature Ty) → signatureUsesParams sig = false →
    metNamesOfSignature sig = []
  | ⟨_, params, result, _⟩, h => by
      rw [signatureUsesParams, Bool.or_eq_false_iff] at h
      rw [metNamesOfSignature, metNamesOfAll_eq_nil params h.1, metNames_eq_nil result h.2,
        List.append_nil]
end

end Ty

-- A match keeps every name in its place with what is known of it, adds only parameters of its
-- target, and finds out something about all that it adds or changes. Without parameters in the
-- target it changes nothing.
theorem match_only_extends {target t : Ty} {s : Substitution} {m : Match}
    (h : Ty.unify target t s = some m) :
    s.Grows target.paramNames m.substitution ∧
      (target.usesParams = false → m.substitution = s) := by
  have hgrows := Ty.unify_grows h
  refine ⟨hgrows.mono (Ty.metNames_subset target), fun hplain => ?_⟩
  rw [Ty.metNames_eq_nil target hplain] at hgrows
  exact hgrows.eq_of_nil

namespace KeyedTable

-- A table of containers of any kind, and one of arrays of nothing.
def pattern : Ty := .map (.param "K") (.applied (.param "M") [.param "A"])

def table : Ty := .map .string (.unary .array .nil)

-- The keys are known already, the elements are not.
def before : Substitution := Bindings.ofList [("A", .unknown), ("K", .string)]

def after : Substitution := ⟨[("A", .nil), ("K", .string), ("M", .unary .array .unknown)]⟩

end KeyedTable

open KeyedTable in
-- The elements become known in their place and the container comes last. A target without
-- parameters leaves all as it was.
theorem table_fills_pattern :
    Ty.unify pattern table before = some ⟨after, 1⟩ ∧ before.Grows pattern.paramNames after ∧
      ∃ m, table.usesParams = false ∧ Ty.unify table table before = some m ∧
        m.substitution = before := by
  have hpattern : Ty.unify pattern table before = some ⟨after, 1⟩ := by decide +kernel
  have htable : Ty.unify table table before = some ⟨before, 4⟩ := by decide +kernel
  have hplain : table.usesParams = false := by decide
  exact ⟨hpattern, (match_only_extends hpattern).1, _, hplain, htable,
    (match_only_extends htable).2 hplain⟩

end Conformance
