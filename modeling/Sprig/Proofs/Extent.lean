import Sprig.Proofs.GrammarFinds
import Sprig.Proofs.Reading

/-!
# How far a statement extends

A statement takes its line and the lines up to the `end` of its block, and inside of them more blocks are
opened than closed at every place (`Whole`). So the first keywords of lines tell where a statement ends, and
what comes after it does not change how it is read (`ReadsStmt.extent`).
-/

namespace Sprig

namespace LogicalLine

/-- What lines add to the number of open blocks. -/
def blockDepths (lines : List LogicalLine) : Int := lines.foldr (fun line d => blockDepth line + d) 0

variable {ts e : LogicalLine} {lines more a b : List LogicalLine}

@[simp] theorem blockDepths_nil : blockDepths [] = 0 := rfl

@[simp] theorem blockDepths_cons : blockDepths (ts :: lines) = blockDepth ts + blockDepths lines := rfl

@[simp] theorem blockDepths_append : blockDepths (lines ++ more) = blockDepths lines + blockDepths more := by
  induction lines with
  | nil => simp
  | cons ts lines ih => simp [ih, Int.add_assoc]

theorem blockDepth_of_kind {k : Kind} (h : ts.head?.map Token.kind = some k) : blockDepth ts = k.blockDepth := by
  cases ts with
  | nil => cases h
  | cons t ts =>
    cases h
    rfl

/-- Every block that these lines open is closed in them, and no other is. -/
structure Level (lines : List LogicalLine) : Prop where
  total : blockDepths lines = 0
  inside : ∀ a b, lines = a ++ b → 0 ≤ blockDepths a

/-- The lines open a block that the last one of them closes. -/
structure Whole (lines : List LogicalLine) : Prop where
  total : blockDepths lines = 0
  inside : ∀ a b, lines = a ++ b → a ≠ [] → b ≠ [] → 0 < blockDepths a

theorem Level.nil : Level [] where
  total := rfl
  inside := by
    intro a b h
    have ha := (List.append_eq_nil_iff.mp h.symm).1
    simp [ha]

theorem Whole.level (h : Whole lines) : Level lines where
  total := h.total
  inside := by
    intro a b hab
    by_cases ha : a = []
    · simp [ha]
    by_cases hb : b = []
    · rw [hb, List.append_nil] at hab
      simp [← hab, h.total]
    · exact Int.le_of_lt (h.inside a b hab ha hb)

theorem Level.append (h : Level lines) (h' : Level more) : Level (lines ++ more) where
  total := by simp [h.total, h'.total]
  inside := by
    intro a b hab
    rcases List.append_eq_append_iff.mp hab with ⟨c, rfl, _⟩ | ⟨c, hc, _⟩
    · have := h'.inside c b ‹_›
      simp [h.total, this]
    · exact h.inside a c hc

theorem Whole.single (h : blockDepth ts = 0) : Whole [ts] where
  total := by simp [h]
  inside := by
    intro a b hab ha hb
    have hlen := congrArg List.length hab
    have := List.length_pos_iff.mpr ha
    have := List.length_pos_iff.mpr hb
    simp at hlen
    omega

theorem Whole.block (hts : blockDepth ts = 1) (h : Level lines) (he : blockDepth e = -1) :
    Whole (ts :: (lines ++ [e])) where
  total := by simp [hts, h.total, he]
  inside := by
    intro a b hab ha hb
    cases a with
    | nil => exact absurd rfl ha
    | cons u a =>
      obtain ⟨rfl, hinside⟩ := List.cons.inj hab
      rcases List.append_eq_append_iff.mp hinside with ⟨c, rfl, hc⟩ | ⟨c, hc, _⟩
      · -- all the lines inside, since something is left over
        cases c with
        | nil => simp [hts, h.total]
        | cons d c =>
          have hlen := congrArg List.length hc
          have := List.length_pos_iff.mpr hb
          simp only [List.length_append, List.length_cons, List.length_nil] at hlen
          omega
      · have := h.inside a c hc
        simp only [blockDepths_cons, hts]
        omega

theorem isUnfinished_eq : isUnfinished lines =
    (lines.getLast?.any Token.isDangling || decide (0 < blockDepths lines)) := rfl

end LogicalLine

open LogicalLine

theorem Reader.blockLine_congr {header : LogicalLine} {lines lines' : List LogicalLine}
    (h : lines.head? = lines'.head?) : blockLine header lines = blockLine header lines' := by
  cases lines <;> cases lines' <;> simp_all [blockLine]

theorem startsWith_congr {k : Kind} {lines lines' : List LogicalLine} (h : lines.head? = lines'.head?) :
    startsWith k lines = startsWith k lines' := by
  rw [startsWith, startsWith, h]

theorem head?_append_congr (used : List LogicalLine) {lines lines' : List LogicalLine}
    (h : lines.head? = lines'.head?) : (used ++ lines).head? = (used ++ lines').head? := by
  rw [List.head?_append, List.head?_append, h]

theorem head?_append_congr_cons (used : List LogicalLine) (ts : LogicalLine) (more more' : List LogicalLine) :
    (used ++ ts :: more).head? = (used ++ ts :: more').head? :=
  head?_append_congr used rfl

theorem blockDepth_of_startsWith {k : Kind} {ts : LogicalLine} {rest : List LogicalLine}
    (h : startsWith k (ts :: rest) = true) : blockDepth ts = k.blockDepth := by
  cases ts with
  | nil => cases h
  | cons t ts =>
    have hk : t.kind = k := by simpa [startsWith] using h
    exact blockDepth_of_kind (congrArg some hk)

theorem ReadsLine.blockDepth_simple {s s' : ScopeTable} {ts : LogicalLine} {ss : List Stmt}
    (hts : ts.isHeader = false) (h : ReadsLine Grammar.simple s ts (some ss) s') : blockDepth ts = 0 := by
  cases ts with
  | nil => rfl
  | cons t ts =>
    have hend : t.kind ≠ .kwEnd := by
      intro hk
      have hmiss : Production.Misses (Grammar.simple .off (.upTo .off (t :: ts).length)) (t :: ts) := by
        apply Grammar.misses_simple_of_next <;> simp [hk, Kind.opensExpr, Kind.opensOperand]
      obtain ⟨tr, hmiss⟩ := hmiss ⟨s, ()⟩
      rw [readsLine_some h] at hmiss
      cases hmiss
    change t.kind.blockDepth = 0
    unfold LogicalLine.isHeader at hts
    unfold Kind.blockDepth
    split <;> simp_all

theorem blockDepth_end {e : Token} (he : e.kind = .kwEnd) : blockDepth [e] = -1 :=
  blockDepth_of_kind (k := .kwEnd) (congrArg some he)

/-! ## Readings take what they extend over -/

mutual

theorem ReadsBlock.extent {s s' : ScopeTable} {lines rest : List LogicalLine} {ss : List Stmt} :
    ReadsBlock s lines ss rest s' → ∃ used, lines = used ++ rest ∧ Level used ∧
      ∀ rest', rest'.head? = rest.head? → ReadsBlock s (used ++ rest') ss rest' s'
  | .nil => ⟨[], rfl, .nil, fun rest' h => by cases rest' with | nil => exact .nil | cons => cases h⟩
  | .stop hts hl => by
    refine ⟨[], rfl, .nil, fun rest' h => ?_⟩
    cases rest' with
    | nil => cases h
    | cons ts rest' =>
      cases h
      exact .stop hts hl
  | .cons h hs => by
    obtain ⟨used, rfl, hu, hst⟩ := h.extent
    obtain ⟨used', rfl, hu', hbl⟩ := hs.extent
    refine ⟨_ :: used ++ used', by simp, hu.level.append hu', fun rest' h => ?_⟩
    have hst := hst (used' ++ rest')
    rw [← List.append_assoc] at hst
    exact .cons hst (hbl rest' h)

theorem ReadsStmt.extent {s s' : ScopeTable} {ts : LogicalLine} {rest rest' : List LogicalLine}
    {ss : List Stmt} : ReadsStmt s ts rest ss rest' s' →
      ∃ used, rest = used ++ rest' ∧ Whole (ts :: used) ∧ ∀ more, ReadsStmt s ts (used ++ more) ss more s'
  | .simple hts hl => ⟨[], rfl, .single (hl.blockDepth_simple hts), fun _ => .simple hts hl⟩
  | .loop (e := e) hk hl hs he => by
    obtain ⟨used, rfl, hu, hbl⟩ := hs.extent
    refine ⟨used ++ [[e]], by simp, .block (blockDepth_of_kind hk) hu (blockDepth_end he), fun more => ?_⟩
    rw [Reader.blockLine_congr (head?_append_congr_cons used [e] _ more), List.append_assoc]
    exact .loop hk hl (hbl ([e] :: more) rfl) he
  | .define (e := e) hk hl hs he => by
    obtain ⟨used, rfl, hu, hbl⟩ := hs.extent
    refine ⟨used ++ [[e]], by simp, .block (blockDepth_of_kind hk) hu (blockDepth_end he), fun more => ?_⟩
    rw [Reader.blockLine_congr (head?_append_congr_cons used [e] _ more), List.append_assoc]
    exact .define hk hl (hbl ([e] :: more) rfl) he
  | .choose (e := e) hk hl hs has ho he => by
    obtain ⟨used₁, hrest, hu₁, hblock⟩ := hs.extent
    obtain ⟨used₂, hrest₁, hu₂, harms⟩ := has.extent
    obtain ⟨used₃, hrest₂, hu₃, hotherwise⟩ := ho.extent
    subst hrest hrest₁ hrest₂
    refine ⟨used₁ ++ used₂ ++ used₃ ++ [[e]], by simp, ?_, fun more => ?_⟩
    · exact .block (blockDepth_of_kind hk) ((hu₁.append hu₂).append hu₃) (blockDepth_end he)
    · have h₃ := head?_append_congr_cons used₃ [e] more rest'
      have h₂ := head?_append_congr used₂ h₃
      have h₁ := head?_append_congr used₁ h₂
      rw [← Reader.blockLine_congr h₁]
      simp only [List.append_assoc]
      exact .choose hk hl (hblock _ h₂) (harms _ h₃) (hotherwise _ rfl) he

theorem ReadsArms.extent {s s' : ScopeTable} {lines rest : List LogicalLine} {as : List Arm} :
    ReadsArms s lines as rest s' → ∃ used, lines = used ++ rest ∧ Level used ∧
      ∀ rest', rest'.head? = rest.head? → ReadsArms s (used ++ rest') as rest' s'
  | .nil hstart => ⟨[], rfl, .nil, fun _ h => .nil ((startsWith_congr h).trans hstart)⟩
  | @ReadsArms.cons _ ts _ _ _ _ _ _ _ _ _ _ hstart hl hs has => by
    obtain ⟨used₁, hrest, hu₁, hblock⟩ := hs.extent
    obtain ⟨used₂, hrest₁, hu₂, harms⟩ := has.extent
    subst hrest hrest₁
    have hts : blockDepth ts = 0 := blockDepth_of_startsWith hstart
    refine ⟨ts :: (used₁ ++ used₂), by simp, ?_, fun rest' h => ?_⟩
    · exact (Whole.single hts).level.append (hu₁.append hu₂)
    · have h₂ := head?_append_congr used₂ h
      have h₁ := head?_append_congr used₁ h₂
      rw [← Reader.blockLine_congr h₁, List.cons_append, List.append_assoc]
      exact .cons ((startsWith_congr rfl).trans hstart) hl (hblock _ h₂) (harms _ h)

theorem ReadsOtherwise.extent {s s' : ScopeTable} {lines rest : List LogicalLine} {o : Option Block} :
    ReadsOtherwise s lines o rest s' → ∃ used, lines = used ++ rest ∧ Level used ∧
      ∀ rest', rest'.head? = rest.head? → ReadsOtherwise s (used ++ rest') o rest' s'
  | .none hstart => ⟨[], rfl, .nil, fun _ h => .none ((startsWith_congr h).trans hstart)⟩
  | .some (t := t) ht hs => by
    obtain ⟨used, rfl, hu, hblock⟩ := hs.extent
    have ht' : blockDepth [t] = 0 := blockDepth_of_kind (k := .kwElse) (congrArg some ht)
    refine ⟨[t] :: used, rfl, (Whole.single ht').level.append hu, fun rest' h => ?_⟩
    rw [← Reader.blockLine_congr (head?_append_congr used h)]
    exact .some ht (hblock rest' h)

end

theorem ReadsStmt.append {s s' : ScopeTable} {ts : LogicalLine} {rest rest' : List LogicalLine} {ss : List Stmt}
    (more : List LogicalLine) (h : ReadsStmt s ts rest ss rest' s') :
    ReadsStmt s ts (rest ++ more) ss (rest' ++ more) s' := by
  obtain ⟨used, rfl, _, hst⟩ := h.extent
  rw [List.append_assoc]
  exact hst (rest' ++ more)

/-! ## Cutting a block -/

theorem ReadsBlock.level {s s' : ScopeTable} {lines : List LogicalLine} {ss : List Stmt}
    (h : ReadsBlock s lines ss [] s') : Level lines := by
  obtain ⟨used, rfl, hu, _⟩ := h.extent
  rwa [List.append_nil]

theorem ReadsBlock.cut {s s' : ScopeTable} {lines rest : List LogicalLine} {ss : List Stmt} :
    ReadsBlock s lines ss rest s' → rest = [] → ∀ {front back : List LogicalLine}, lines = front ++ back →
      blockDepths front ≤ 0 → ∃ ss₁ s₁, ReadsBlock s front ss₁ [] s₁
  | .nil, _, [], _, _, _ => ⟨[], s, .nil⟩
  | .cons _ _, _, [], _, _, _ => ⟨[], s, .nil⟩
  | @ReadsBlock.cons _ ts _ _ rest₁ _ _ _ _ h hs, hr, u :: front, back, hf, hd => by
    obtain ⟨used, rfl, hu, hst⟩ := h.extent
    obtain ⟨rfl, hlines⟩ := List.cons.inj hf
    have hbehind {c : List LogicalLine} (hc : front = used ++ c) {back : List LogicalLine} (hb : rest₁ = c ++ back) :
        ∃ ss₁ s₁, ReadsBlock s (ts :: front) ss₁ [] s₁ := by
      have hdepth : blockDepths (ts :: front) = blockDepths (ts :: used) + blockDepths c := by
        rw [hc, ← List.cons_append, blockDepths_append]
      have htotal := hu.total
      obtain ⟨ss₁, s₁, h₁⟩ := hs.cut hr hb (by omega)
      rw [hc]
      exact ⟨_, s₁, ReadsBlock.cons (hst c) h₁⟩
    rcases List.append_eq_append_iff.mp hlines with ⟨c, hc, hb⟩ | ⟨c, hc, hb⟩
    · exact hbehind hc hb
    · by_cases hnil : c = []
      · exact hbehind (by simp [hc, hnil]) (List.nil_append rest₁).symm
      · -- the statement is cut in two, and its block is open
        have := hu.inside (ts :: front) c (by simp [hc]) (by simp) hnil
        omega

end Sprig
