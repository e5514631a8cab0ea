import Sprig.Proofs.Compositional
import Sprig.Session

/-!
# Every statement is handed over once

A session only knows how many statements it has handed over. That is enough: the accepted source ends its
line, so a chunk behind it is read as it would be on its own, and the statements that were handed over are
those at the front of the new program (`Session.Reads`).

Main statement: `Session.handed_over_once`.
-/

namespace Sprig

namespace Session

/-- What a submission hands over to be run, or why the chunk cannot be read. -/
def handOver (s : Session) (chunk : String) : Except Fault (ScopeTable × Block) :=
  (Program.ofSource (extend s.source chunk)).map fun p => (p.scopes, p.body.tail s.executed)

structure Submission where
  chunk : String
  handed : Option Block
  result : Except Stop Unit

def history (fuel : Nat) : List String → Session → List Submission
  | [], _ => []
  | chunk :: chunks, s =>
    ⟨chunk, (s.handOver chunk).toOption.map (·.2), (s.submit fuel chunk).1⟩ ::
      history fuel chunks (s.submit fuel chunk).2

def submitAll (fuel : Nat) : List String → Session → Session
  | [], s => s
  | chunk :: chunks, s => submitAll fuel chunks (s.submit fuel chunk).2

def handedStmts (log : List Submission) : List Stmt := log.flatMap fun e => (e.handed.map Block.stmts).getD []

/-! ## One submission -/

/-- How a run ends, and the machine it leaves. -/
def outcome : EStateM.Result Stop Machine Unit → Except Stop Unit × Machine
  | .ok () m => (.ok (), m)
  | .error stop m => (.error stop, m)

variable {fuel : Nat} {s : Session} {chunk : String}

theorem handOver_error {f : Fault} (h : Program.ofSource (extend s.source chunk) = .error f) :
    s.handOver chunk = .error f := by
  rw [handOver, h]
  rfl

theorem handOver_ok {p : Program} (h : Program.ofSource (extend s.source chunk) = .ok p) :
    s.handOver chunk = .ok (p.scopes, p.body.tail s.executed) := by
  rw [handOver, h]
  rfl

theorem submit_error {f : Fault} (h : Program.ofSource (extend s.source chunk) = .error f) :
    s.submit fuel chunk = (.error (.fault f), { s with attempt := extend s.source chunk }) := by
  rw [submit, h]
  rfl

theorem submit_ok {p : Program} (h : Program.ofSource (extend s.source chunk) = .ok p) :
    s.submit fuel chunk =
      ((outcome (s.machine.resume fuel p.scopes (p.body.tail s.executed))).1,
        ⟨extend s.source chunk, extend s.source chunk, p.body.stmts.length,
          (outcome (s.machine.resume fuel p.scopes (p.body.tail s.executed))).2⟩) := by
  rw [submit, h]
  unfold accept
  simp only
  cases s.machine.resume fuel p.scopes (p.body.tail s.executed) <;> rfl

/-- What is handed over is run. -/
theorem submit_handOver {scopes : ScopeTable} {b : Block} (h : s.handOver chunk = .ok (scopes, b)) (fuel : Nat) :
    ((s.submit fuel chunk).1, (s.submit fuel chunk).2.machine) = outcome (s.machine.resume fuel scopes b) := by
  cases hp : Program.ofSource (extend s.source chunk) with
  | error f =>
    rw [handOver_error hp] at h
    cases h
  | ok p =>
    rw [handOver_ok hp] at h
    cases h
    rw [submit_ok hp]

/-! ## The accepted source -/

theorem endsLine_endLine (text : String) : EndsLine (endLine text) := by
  unfold endLine
  split
  · rename_i h
    rw [EndsLine, Closed, eq_of_beq h]
    rfl
  · exact endsLine_concat text

theorem endLine_of_endsLine {text : String} (h : EndsLine text) (hne : text.isEmpty = false) :
    endLine text = text := by
  have hlast : text.toList.getLast? = some '\n' := by
    cases hl : text.toList.getLast? with
    | none =>
      rw [List.getLast?_eq_none_iff, String.toList_eq_nil_iff] at hl
      rw [hl] at hne
      cases hne
    | some c =>
      rw [EndsLine, Closed, hl] at h
      exact congrArg some (eq_of_beq h)
  rw [endLine, hlast]
  rfl

theorem extend_eq {source : String} (h : EndsLine source) (chunk : String) :
    ∃ more, extend source chunk = source ++ more ∧ (more = chunk ∨ more = chunk ++ "\n") := by
  have hsource : (if source.isEmpty then source else endLine source) = source := by
    cases hs : source.isEmpty with
    | true => rfl
    | false => exact endLine_of_endsLine h hs
  rw [extend, hsource]
  unfold endLine
  split
  · exact ⟨chunk, rfl, .inl rfl⟩
  · exact ⟨chunk ++ "\n", String.append_assoc, .inr rfl⟩

/-- The accepted source ends its line and reads as the program, and all its statements have been handed over. -/
structure Reads (s : Session) (p : Program) : Prop where
  endsLine : EndsLine s.source
  reads : Program.ofSource s.source = .ok p
  executed : s.executed = p.body.stmts.length

/-- A session before anything is submitted to it. -/
def onto (m : Machine) : Session := ⟨"", "", 0, m⟩

theorem reads_onto (m : Machine) : (onto m).Reads ⟨⟨1, []⟩, .initial⟩ where
  endsLine := rfl
  reads := (Program.ofSource_eq_off (show LogicalLine.ofSource "" = .ok [] from rfl)).trans rfl
  executed := rfl

/-- What is new in a program behind the accepted source is what is handed over, and no name is lost. -/
theorem Reads.extend {p p' : Program} (h : s.Reads p) (hp' : Program.ofSource (extend s.source chunk) = .ok p') :
    p'.body.stmts = p.body.stmts ++ (p'.body.tail s.executed).stmts ∧ p.scopes.Within p'.scopes := by
  obtain ⟨more, hmore, _⟩ := extend_eq h.endsLine chunk
  have happend := Program.ofSource_append h.endsLine h.reads more
  rw [← hmore, hp'] at happend
  split at happend
  · cases happend
  · rename_i q hq
    obtain ⟨line, happend⟩ := happend
    cases happend
    refine ⟨?_, ScopeTable.within_after q.scopes p.scopes⟩
    show _ = p.body.stmts ++ List.drop s.executed (p.body.stmts ++ _)
    rw [h.executed, List.drop_left]

theorem Reads.submit {p : Program} (h : s.Reads p) (fuel : Nat) (chunk : String) :
    ∃ p', (s.submit fuel chunk).2.Reads p' ∧ p.scopes.Within p'.scopes ∧
      p'.body.stmts = p.body.stmts ++ (((s.handOver chunk).toOption.map (·.2)).map Block.stmts).getD [] := by
  cases hp : Program.ofSource (Session.extend s.source chunk) with
  | error f =>
    rw [submit_error hp, handOver_error hp]
    exact ⟨p, ⟨h.endsLine, h.reads, h.executed⟩, .refl _, (List.append_nil _).symm⟩
  | ok p' =>
    rw [submit_ok hp, handOver_ok hp]
    obtain ⟨hstmts, hwithin⟩ := h.extend hp
    exact ⟨p', ⟨endsLine_endLine _, hp, rfl⟩, hwithin, hstmts⟩

/-! ## Histories -/

theorem Reads.history : ∀ {chunks : List String} {s : Session} {p : Program}, s.Reads p →
    ∃ p', (s.submitAll fuel chunks).Reads p' ∧ p.scopes.Within p'.scopes ∧
      p'.body.stmts = p.body.stmts ++ handedStmts (s.history fuel chunks)
  | [], s, p, h => ⟨p, h, .refl _, (List.append_nil _).symm⟩
  | chunk :: chunks, s, p, h => by
    obtain ⟨p₁, h₁, hwithin₁, hs₁⟩ := h.submit fuel chunk
    obtain ⟨p₂, h₂, hwithin₂, hs₂⟩ := h₁.history
    rw [submitAll, Session.history, handedStmts, List.flatMap_cons, ← handedStmts]
    exact ⟨p₂, h₂, hwithin₁.trans hwithin₂, by rw [hs₂, hs₁, List.append_assoc]⟩

/-- Sessions that differ at most in the text of their last submission. -/
def Alike (s s' : Session) : Prop := { s with attempt := "" } = { s' with attempt := "" }

theorem Alike.submit {s s' : Session} (h : s.Alike s') (fuel : Nat) (chunk : String) :
    s.submit fuel chunk = s'.submit fuel chunk ∧ s.handOver chunk = s'.handOver chunk := by
  obtain ⟨source, attempt, executed, machine⟩ := s
  obtain ⟨source', attempt', executed', machine'⟩ := s'
  cases h
  rw [Session.submit, Session.submit, handOver, handOver]
  exact ⟨rfl, rfl⟩

/-- The chunks that could be read, with what became of them. -/
def kept (log : List Submission) : List Submission := log.filter (·.handed.isSome)

/-- The rejected chunks might as well not have been submitted. -/
theorem Alike.history : ∀ {chunks : List String} {s s' : Session}, s'.Alike s →
    s'.history fuel ((kept (s.history fuel chunks)).map (·.chunk)) = kept (s.history fuel chunks) ∧
      (s'.submitAll fuel ((kept (s.history fuel chunks)).map (·.chunk))).Alike (s.submitAll fuel chunks)
  | [], s, s', h => ⟨rfl, h⟩
  | chunk :: chunks, s, s', h => by
    obtain ⟨hsubmit, hhand⟩ := h.submit fuel chunk
    cases hp : Program.ofSource (extend s.source chunk) with
    | error f =>
      have hnext : s'.Alike (s.submit fuel chunk).2 := by
        rw [submit_error hp]
        exact h
      have hkept : kept (s.history fuel (chunk :: chunks)) = kept ((s.submit fuel chunk).2.history fuel chunks) := by
        rw [Session.history, handOver_error hp]
        rfl
      rw [hkept, submitAll]
      exact hnext.history
    | ok p =>
      have hnext : (s.submit fuel chunk).2.Alike (s.submit fuel chunk).2 := rfl
      obtain ⟨ih, ih'⟩ := @Alike.history chunks _ _ hnext
      have hkept : kept (s.history fuel (chunk :: chunks)) =
          ⟨chunk, some (p.body.tail s.executed), (s.submit fuel chunk).1⟩ ::
            kept ((s.submit fuel chunk).2.history fuel chunks) := by
        rw [Session.history, handOver_ok hp]
        rfl
      rw [hkept, List.map_cons, Session.history, submitAll, submitAll, hhand, handOver_ok hp, hsubmit, ih]
      exact ⟨rfl, ih'⟩

/-- **Every statement is handed over once.** Whatever chunks are submitted, be they accepted or rejected and
whether running them fails: what was handed over, in order, are the statements of the accepted source, with
their lines. A chunk that cannot be read changes nothing but the text of the last submission; one that can
has exactly the block it hands over run. Without the chunks that cannot be read, every other submission ends
the same way and leaves the same session. -/
theorem handed_over_once (fuel : Nat) (m : Machine) (chunks : List String) :
    (∃ p, Program.ofSource ((onto m).submitAll fuel chunks).source = .ok p ∧
      handedStmts ((onto m).history fuel chunks) = p.body.stmts) ∧
    (∀ (s : Session) (chunk : String), match s.handOver chunk with
      | .error f => s.submit fuel chunk = (.error (.fault f), { s with attempt := extend s.source chunk })
      | .ok (scopes, block) => ((s.submit fuel chunk).1, (s.submit fuel chunk).2.machine) =
          outcome (s.machine.resume fuel scopes block)) ∧
    let log := kept ((onto m).history fuel chunks)
    (onto m).history fuel (log.map (·.chunk)) = log ∧
      ((onto m).submitAll fuel (log.map (·.chunk))).Alike ((onto m).submitAll fuel chunks) := by
  refine ⟨?_, ?_, Alike.history rfl⟩
  · obtain ⟨p, h, -, hs⟩ := (reads_onto m).history
    exact ⟨p, h.reads, hs.symm⟩
  · intro s chunk
    cases hp : Program.ofSource (extend s.source chunk) with
    | error f =>
      rw [handOver_error hp]
      exact submit_error hp
    | ok p =>
      have hhand := handOver_ok hp
      rw [hhand]
      exact submit_handOver hhand fuel

end Session

end Sprig
