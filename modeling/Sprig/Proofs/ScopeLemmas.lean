import Sprig.Scope

/-!
# Declaring names

A name that is declared stays declared, and declaring it again changes nothing. `ScopeTable.declareAll` is a
list of declarations, in order.
-/

namespace Sprig

namespace Scope

variable {s : Scope} {name other : String}

theorem find_iff : s.find name = true ↔ name ∈ s.names := by
  rw [find, List.contains_iff_mem]

theorem declare_of_mem (h : name ∈ s.names) : s.declare name = s := by
  rw [declare, if_pos (find_iff.mpr h)]

theorem declare_of_not_mem (h : name ∉ s.names) : s.declare name = { s with names := s.names ++ [name] } := by
  rw [declare, if_neg (fun hf => h (find_iff.mp hf))]

theorem mem_declare : other ∈ (s.declare name).names ↔ other ∈ s.names ∨ other = name := by
  by_cases h : name ∈ s.names
  · rw [declare_of_mem h]
    refine ⟨Or.inl, fun ho => ho.elim id fun he => he ▸ h⟩
  · rw [declare_of_not_mem h, List.mem_append, List.mem_singleton]

end Scope

namespace ScopeTable

variable {t : ScopeTable} {name other : String}

def Declares (t : ScopeTable) (name : String) : Prop :=
  if isGlobalName name then name ∈ t.globals.names else name ∈ t.current.names

theorem globals_declareLocal (t : ScopeTable) (name : String) : (t.declareLocal name).globals = t.globals := by
  unfold declareLocal
  split <;> rfl

theorem current_declareLocal (t : ScopeTable) (name : String) :
    (t.declareLocal name).current = t.current.declare name := by
  unfold declareLocal current
  split <;> rename_i h <;> rw [h] <;> rfl

theorem length_declareLocal (t : ScopeTable) (name : String) :
    (t.declareLocal name).functions.length = t.functions.length := by
  rcases t with ⟨globals, program, _ | ⟨s, fs⟩⟩ <;> rfl

theorem declares_declare (t : ScopeTable) (name : String) : (t.declare name).Declares name := by
  unfold Declares declare
  by_cases hg : isGlobalName name = true
  · rw [if_pos hg, if_pos hg]
    exact Scope.mem_declare.mpr (Or.inr rfl)
  · rw [if_neg hg, if_neg hg, current_declareLocal]
    exact Scope.mem_declare.mpr (Or.inr rfl)

theorem Declares.declare (h : t.Declares other) (name : String) : (t.declare name).Declares other := by
  unfold Declares ScopeTable.declare at *
  by_cases ho : isGlobalName other = true <;> by_cases hg : isGlobalName name = true
  · rw [if_pos ho] at h ⊢
    rw [if_pos hg]
    exact Scope.mem_declare.mpr (Or.inl h)
  · rw [if_pos ho] at h ⊢
    rw [if_neg hg, globals_declareLocal]
    exact h
  · rw [if_neg ho] at h ⊢
    rw [if_pos hg]
    exact h
  · rw [if_neg ho] at h ⊢
    rw [if_neg hg, current_declareLocal]
    exact Scope.mem_declare.mpr (Or.inl h)

theorem declare_of_declares (h : t.Declares name) : t.declare name = t := by
  unfold Declares at h
  unfold ScopeTable.declare
  by_cases hg : isGlobalName name = true
  · rw [if_pos hg] at h ⊢
    rw [declareGlobal, Scope.declare_of_mem h]
  · rw [if_neg hg] at h ⊢
    unfold current at h
    unfold declareLocal
    split <;> rename_i hf <;> rw [hf] at h
    · rw [Scope.declare_of_mem (s := t.program) h]
    · rename_i f rest
      rw [Scope.declare_of_mem (s := f) h, ← hf]

/-! ## Lists of declarations -/

def declareAll (t : ScopeTable) (names : List String) : ScopeTable := names.foldl declare t

theorem declareAll_append (t : ScopeTable) (as bs : List String) :
    t.declareAll (as ++ bs) = (t.declareAll as).declareAll bs :=
  List.foldl_append

theorem Declares.declareAll : ∀ (names : List String) {t : ScopeTable}, t.Declares other →
    (t.declareAll names).Declares other
  | [], _, h => h
  | name :: names, _, h => Declares.declareAll names (h.declare name)

theorem declares_declareAll : ∀ {names : List String} {t : ScopeTable}, name ∈ names →
    (t.declareAll names).Declares name
  | a :: names, t, h => by
    rcases List.mem_cons.mp h with rfl | h
    · exact Declares.declareAll names (declares_declare t name)
    · exact declares_declareAll (t := t.declare a) h

theorem declareAll_of_declares : ∀ {names : List String}, (∀ name ∈ names, t.Declares name) →
    t.declareAll names = t
  | [], _ => rfl
  | name :: names, h => by
    have ht : t.declare name = t := declare_of_declares (h name List.mem_cons_self)
    show (t.declare name).declareAll names = t
    rw [ht]
    exact declareAll_of_declares fun n hn => h n (List.mem_cons_of_mem _ hn)

theorem declares_of_declareAll {names : List String} (h : t.declareAll names = t) :
    ∀ name ∈ names, t.Declares name := by
  intro name hn
  have := declares_declareAll (t := t) hn
  rwa [h] at this

theorem declareAll_declareAll (t : ScopeTable) (names : List String) :
    (t.declareAll names).declareAll names = t.declareAll names :=
  declareAll_of_declares fun _ hn => declares_declareAll hn

end ScopeTable

end Sprig
