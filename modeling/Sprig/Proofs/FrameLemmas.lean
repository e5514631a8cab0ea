import Sprig.Machine

/-!
# What frames bind

What a name is bound to in a new frame, after a store, and after bindings were taken over.
-/

namespace Sprig

namespace Frame

variable {f f' g : Frame} {name other : String} {v : Value}

theorem get?_empty (name : String) : empty.get? name = none := rfl

theorem get?_ofScope (s : Scope) (name : String) :
    (ofScope s).get? name = if name ∈ s.names then some .nil else none := by
  unfold ofScope get?
  generalize s.names = names
  induction names with
  | nil => rfl
  | cons n names ih =>
    rw [List.map_cons, List.lookup_cons, ih]
    by_cases h : name = n
    · rw [beq_iff_eq.mpr h, if_pos (h ▸ List.mem_cons_self : name ∈ n :: names)]
    · rw [beq_eq_false_iff_ne.mpr h]
      simp only [List.mem_cons, h, false_or]

theorem set?_eq_none (h : f.get? name = none) : f.set? name v = none := by
  rw [set?, contains, h]
  rfl

theorem set?_eq_some (h : (f.get? name).isSome = true) : ∃ f', f.set? name v = some f' := by
  rw [set?, contains, h, if_pos rfl]
  exact ⟨_, rfl⟩

theorem lookup_store_self (name : String) (v : Value) : ∀ {bindings : List (String × Value)},
    (bindings.lookup name).isSome = true →
      (bindings.map fun b => if b.1 == name then (name, v) else b).lookup name = some v
  | [], h => by cases h
  | (n, w) :: bindings, h => by
    rw [List.lookup_cons] at h
    rw [List.map_cons, List.lookup_cons]
    by_cases hn : n = name
    · simp only [hn, beq_self_eq_true, if_true]
    · have hn' : (name == n) = false := beq_eq_false_iff_ne.mpr (Ne.symm hn)
      rw [hn'] at h
      simp only [beq_eq_false_iff_ne.mpr hn, Bool.false_eq_true, if_false, hn']
      exact lookup_store_self name v h

theorem lookup_store_of_ne (v : Value) (hne : other ≠ name) : ∀ bindings : List (String × Value),
    (bindings.map fun b => if b.1 == name then (name, v) else b).lookup other = bindings.lookup other
  | [] => rfl
  | (n, w) :: bindings => by
    rw [List.map_cons, List.lookup_cons, List.lookup_cons, lookup_store_of_ne v hne bindings]
    by_cases hn : n = name
    · simp only [hn, beq_self_eq_true, if_true, beq_eq_false_iff_ne.mpr hne]
    · simp only [beq_eq_false_iff_ne.mpr hn, Bool.false_eq_true, if_false]

theorem get?_set? (h : f.set? name v = some f') (other : String) :
    f'.get? other = if other = name then some v else f.get? other := by
  unfold set? contains at h
  split at h
  · rename_i hc
    cases h
    by_cases ho : other = name
    · rw [if_pos ho, ho]
      exact lookup_store_self name v hc
    · rw [if_neg ho]
      exact lookup_store_of_ne v ho f.bindings
  · cases h

section
variable {P : Value → Prop}

theorem forall_get?_set? (h : ∀ ⦃name v⦄, f.get? name = some v → P v) (hv : P v) (hset : f.set? name v = some f') :
    ∀ ⦃other w⦄, f'.get? other = some w → P w := by
  intro other w hw
  rw [get?_set? hset] at hw
  split at hw
  · cases hw
    exact hv
  · exact h hw

theorem forall_get?_ofScope (s : Scope) (hnil : P .nil) : ∀ ⦃name v⦄, (ofScope s).get? name = some v → P v := by
  intro name v hv
  rw [get?_ofScope] at hv
  split at hv
  · cases hv
    exact hnil
  · cases hv

end

theorem get?_migrate (f g : Frame) (name : String) :
    (f.migrate g).get? name = (f.get? name).map fun v => (g.get? name).getD v := by
  unfold migrate get?
  induction f.bindings with
  | nil => rfl
  | cons b bindings ih =>
    rw [List.map_cons, List.lookup_cons, ih, List.lookup_cons]
    cases hn : name == b.1 with
    | true => rw [eq_of_beq hn]; rfl
    | false => rfl

theorem migrate_empty (f : Frame) : f.migrate .empty = f := by
  unfold migrate
  congr 1
  exact List.map_id _

/-- The frame binds these names and no others. -/
def Binds (f : Frame) (names : List String) : Prop := ∀ name, (f.get? name).isSome = true ↔ name ∈ names

theorem binds_empty : empty.Binds [] := fun _ => iff_of_false Bool.false_ne_true List.not_mem_nil

theorem binds_ofScope (s : Scope) : (ofScope s).Binds s.names := by
  intro name
  rw [get?_ofScope]
  split
  · exact iff_of_true rfl ‹_›
  · exact iff_of_false Bool.false_ne_true ‹_›

theorem Binds.set? {names : List String} (h : f.Binds names) (hf : f.set? name v = some f') : f'.Binds names := by
  intro other
  rw [get?_set? hf, ← h other]
  split
  · rename_i ho
    have hb : (f.get? other).isSome = true := by
      rw [ho]
      unfold Frame.set? contains at hf
      split at hf
      · assumption
      · cases hf
    exact iff_of_true rfl hb
  · exact Iff.rfl

theorem Binds.migrate {names : List String} (h : f.Binds names) (g : Frame) : (f.migrate g).Binds names := by
  intro name
  rw [get?_migrate, Option.isSome_map]
  exact h name

theorem Binds.get?_eq_none {names : List String} (h : f.Binds names) (hn : name ∉ names) : f.get? name = none := by
  cases hf : f.get? name with
  | none => rfl
  | some v => exact absurd ((h name).mp (by rw [hf]; rfl)) hn

end Frame

/-- A store changes a frame, the globals or the one on top, and nothing else. -/
theorem Machine.set?_cases {m m' : Machine} {name : String} {v : Value} (h : m.set? name v = some m') :
    (∃ g, m.globals.set? name v = some g ∧ m' = { m with globals := g }) ∨
      ∃ f below g, m.frames = f :: below ∧ f.set? name v = some g ∧ m' = { m with frames := g :: below } := by
  unfold set? at h
  by_cases hg : isGlobalName name = true
  · simp only [hg, if_true, Option.map_eq_some_iff] at h
    obtain ⟨g, hset, rfl⟩ := h
    exact .inl ⟨g, hset, rfl⟩
  · rw [if_neg hg] at h
    cases hf : m.frames with
    | nil => simp [hf] at h
    | cons f below =>
      simp only [hf, Option.map_eq_some_iff] at h
      obtain ⟨g, hset, rfl⟩ := h
      exact .inr ⟨f, below, g, rfl, hset, rfl⟩

theorem Machine.get?_set? {m m' : Machine} {name : String} {v : Value} (h : m.set? name v = some m') (other : String) :
    m'.get? other = if other = name then some v else m.get? other := by
  unfold set? at h
  unfold get?
  by_cases hg : isGlobalName name = true
  · simp only [hg, if_true, Option.map_eq_some_iff] at h
    obtain ⟨g, hset, rfl⟩ := h
    by_cases ho : isGlobalName other = true
    · rw [if_pos ho, if_pos ho]
      exact Frame.get?_set? hset other
    · have hne : other ≠ name := fun he => ho (he ▸ hg)
      rw [if_neg ho, if_neg ho, if_neg hne]
  · rw [if_neg hg] at h
    cases hf : m.frames with
    | nil => simp [hf] at h
    | cons f below =>
      simp only [hf, Option.map_eq_some_iff] at h
      obtain ⟨g, hset, rfl⟩ := h
      by_cases ho : isGlobalName other = true
      · have hne : other ≠ name := fun he => hg (he ▸ ho)
        rw [if_pos ho, if_pos ho, if_neg hne]
      · rw [if_neg ho, if_neg ho]
        exact Frame.get?_set? hset other

end Sprig
