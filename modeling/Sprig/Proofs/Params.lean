import Sprig.Proofs.Scoped

/-!
# Global parameters are declared

A parameter with a global name stores into the globals, if the globals have it. They do: a program declares its
global parameters like all other names it stores under (`Stmt.Scoped.paramsIn`).
-/

namespace Sprig

/-! ## Functions whose global parameters are among given names -/

section
variable (G : List String)

mutual

def Stmt.ParamsIn : Stmt → Prop
  | .choose first others otherwise => first.ParamsIn ∧ Arm.AllParamsIn others ∧ Block.ParamsInOption otherwise
  | .loop _ _ body => body.ParamsIn
  | .define f => f.ParamsIn
  | .assign _ | .print _ _ | .puts _ _ | .gets _ | .expr _ => True

def Stmt.AllParamsIn : List Stmt → Prop
  | [] => True
  | s :: ss => s.ParamsIn ∧ Stmt.AllParamsIn ss

def Arm.ParamsIn : Arm → Prop
  | ⟨_, _, body⟩ => body.ParamsIn

def Arm.AllParamsIn : List Arm → Prop
  | [] => True
  | a :: as => a.ParamsIn ∧ Arm.AllParamsIn as

def Block.ParamsIn : Block → Prop
  | ⟨_, stmts⟩ => Stmt.AllParamsIn stmts

def Block.ParamsInOption : Option Block → Prop
  | none => True
  | some b => b.ParamsIn

def Func.ParamsIn : Func → Prop
  | ⟨_, params, _, body, _⟩ => (∀ p ∈ params, isGlobalName p = true → p ∈ G) ∧ body.ParamsIn

end

end

theorem Stmt.allParamsIn_append {G : List String} : ∀ {ss ss' : List Stmt},
    Stmt.AllParamsIn G (ss ++ ss') ↔ Stmt.AllParamsIn G ss ∧ Stmt.AllParamsIn G ss'
  | [], _ => (true_and _ ▸ Iff.rfl)
  | s :: ss, ss' => by
    rw [List.cons_append, AllParamsIn, AllParamsIn, allParamsIn_append, and_assoc]

section
variable {G H : List String}

mutual

theorem Stmt.ParamsIn.mono (hGH : ∀ n ∈ G, n ∈ H) : ∀ {s : Stmt}, s.ParamsIn G → s.ParamsIn H
  | .choose _ _ _, h => ⟨Arm.ParamsIn.mono hGH h.1, Arm.AllParamsIn.mono hGH h.2.1, Block.ParamsInOption.mono hGH h.2.2⟩
  | .loop _ _ _, h => Block.ParamsIn.mono hGH h
  | .define _, h => Func.ParamsIn.mono hGH h
  | .assign _, _ | .print _ _, _ | .puts _ _, _ | .gets _, _ | .expr _, _ => trivial

theorem Stmt.AllParamsIn.mono (hGH : ∀ n ∈ G, n ∈ H) : ∀ {ss : List Stmt},
    Stmt.AllParamsIn G ss → Stmt.AllParamsIn H ss
  | [], _ => trivial
  | _ :: _, h => ⟨Stmt.ParamsIn.mono hGH h.1, Stmt.AllParamsIn.mono hGH h.2⟩

theorem Arm.ParamsIn.mono (hGH : ∀ n ∈ G, n ∈ H) : ∀ {a : Arm}, a.ParamsIn G → a.ParamsIn H
  | ⟨_, _, _⟩, h => Block.ParamsIn.mono hGH h

theorem Arm.AllParamsIn.mono (hGH : ∀ n ∈ G, n ∈ H) : ∀ {as : List Arm},
    Arm.AllParamsIn G as → Arm.AllParamsIn H as
  | [], _ => trivial
  | _ :: _, h => ⟨Arm.ParamsIn.mono hGH h.1, Arm.AllParamsIn.mono hGH h.2⟩

theorem Block.ParamsIn.mono (hGH : ∀ n ∈ G, n ∈ H) : ∀ {b : Block}, b.ParamsIn G → b.ParamsIn H
  | ⟨_, _⟩, h => Stmt.AllParamsIn.mono hGH h

theorem Block.ParamsInOption.mono (hGH : ∀ n ∈ G, n ∈ H) : ∀ {b : Option Block},
    Block.ParamsInOption G b → Block.ParamsInOption H b
  | none, _ => trivial
  | some _, h => Block.ParamsIn.mono hGH h

theorem Func.ParamsIn.mono (hGH : ∀ n ∈ G, n ∈ H) : ∀ {f : Func}, f.ParamsIn G → f.ParamsIn H
  | ⟨_, _, _, _, _⟩, h => ⟨fun p hp hg => hGH p (h.1 p hp hg), Block.ParamsIn.mono hGH h.2⟩

end

end

/-! ## Functions of programs -/

section
variable {G : List String}

mutual

theorem Stmt.Scoped.paramsIn {L : List String} : ∀ {s : Stmt}, s.Scoped G L → s.ParamsIn G
  | .choose _ _ _, h => ⟨Arm.Scoped.paramsIn h.1, Arm.AllScoped.paramsIn h.2.1, Block.ScopedOption.paramsIn h.2.2⟩
  | .loop _ _ _, h => Block.Scoped.paramsIn h.2
  | .define _, h => Func.Scoped.paramsIn h.2
  | .assign _, _ | .print _ _, _ | .puts _ _, _ | .gets _, _ | .expr _, _ => trivial

theorem Stmt.AllScoped.paramsIn {L : List String} : ∀ {ss : List Stmt}, Stmt.AllScoped G L ss →
    Stmt.AllParamsIn G ss
  | [], _ => trivial
  | _ :: _, h => ⟨Stmt.Scoped.paramsIn h.1, Stmt.AllScoped.paramsIn h.2⟩

theorem Arm.Scoped.paramsIn {L : List String} : ∀ {a : Arm}, a.Scoped G L → a.ParamsIn G
  | ⟨_, _, _⟩, h => Block.Scoped.paramsIn h.2

theorem Arm.AllScoped.paramsIn {L : List String} : ∀ {as : List Arm}, Arm.AllScoped G L as → Arm.AllParamsIn G as
  | [], _ => trivial
  | _ :: _, h => ⟨Arm.Scoped.paramsIn h.1, Arm.AllScoped.paramsIn h.2⟩

theorem Block.Scoped.paramsIn {L : List String} : ∀ {b : Block}, b.Scoped G L → b.ParamsIn G
  | ⟨_, _⟩, h => Stmt.AllScoped.paramsIn h

theorem Block.ScopedOption.paramsIn {L : List String} : ∀ {b : Option Block}, Block.ScopedOption G L b →
    Block.ParamsInOption G b
  | none, _ => trivial
  | some _, h => Block.Scoped.paramsIn h

theorem Func.Scoped.paramsIn : ∀ {f : Func}, f.Scoped G → f.ParamsIn G
  | ⟨_, _, _, _, _⟩, h =>
    ⟨fun p hp hg => by
      have hbound := h.2.1 p hp
      rwa [Bound, if_pos hg] at hbound, Block.Scoped.paramsIn h.2.2⟩

end

end

end Sprig
