import Mathlib.Data.List.DropRight
import Sprig.Proofs.Interactive
import Sprig.Proofs.Recording

/-!
# How the input is delivered

A session and its host take their lines from one input. Whatever they do, and however the submissions end, these lines
are those of the input, each once and in their order, and past its end there are none (`Session.drains_acts`). A `gets`
evaluates to its line without the break at the end. If there are carriage returns before that, it drops them too.

Main statement: `Session.input_delivered`.
-/

namespace Sprig

/-! ## The breaks of lines -/

/-- A line without the `\n` or the `\r\n` at its end. -/
def withoutTerminator (line : List Char) : List Char :=
  if line.getLast? = some '\n' then
    if line.dropLast.getLast? = some '\r' then line.dropLast.dropLast else line.dropLast
  else line

/-- A line without the carriage returns at its end. -/
def withoutReturns (line : List Char) : List Char := line.rdropWhile (· == '\r')

theorem withoutReturns_eq_self_iff {line : List Char} : withoutReturns line = line ↔ line.getLast? ≠ some '\r' := by
  unfold withoutReturns
  rw [List.rdropWhile_eq_self_iff]
  rcases List.eq_nil_or_concat line with rfl | ⟨front, c, rfl⟩
  · simp
  · simp

theorem rdropWhile_break {line : List Char} (h : '\n' ∉ line) :
    line.rdropWhile (fun c => c == '\n' || c == '\r') = withoutReturns line := by
  unfold withoutReturns
  induction line using List.reverseRecOn with
  | nil => rfl
  | append_singleton front c ih =>
    rw [List.mem_append, List.mem_singleton, not_or] at h
    rw [List.rdropWhile_concat, List.rdropWhile_concat, ih h.1, beq_eq_false_iff_ne.mpr (Ne.symm h.2), Bool.false_or]

/-- In a line there is a line feed at the end at most. -/
theorem Console.toList_withoutBreak {line : List Char} (h : '\n' ∉ line.dropLast) :
    (withoutBreak (String.ofList line)).toList = withoutReturns (withoutTerminator line) := by
  have hbreak : (withoutBreak (String.ofList line)).toList = line.rdropWhile fun c => c == '\n' || c == '\r' := by
    rw [withoutBreak, String.toList_ofList, String.toList_ofList]
    rfl
  rw [hbreak]
  rcases List.eq_nil_or_concat line with rfl | ⟨front, c, rfl⟩
  · rfl
  rw [List.concat_eq_append, List.dropLast_concat] at h
  rw [List.concat_eq_append, withoutTerminator, List.getLast?_concat, List.dropLast_concat]
  by_cases hc : c = '\n'
  · rw [List.rdropWhile_concat_pos _ _ _ (by simp [hc]), rdropWhile_break h, if_pos (congrArg some hc)]
    split
    · rename_i hreturn
      obtain ⟨init, rfl⟩ := List.getLast?_eq_some_iff.mp hreturn
      rw [List.dropLast_concat, withoutReturns, List.rdropWhile_concat_pos _ _ _ rfl, withoutReturns]
    · rfl
  · -- a last line without a line feed has no terminator, even if it ends in a carriage return
    have hfeed : '\n' ∉ front ++ [c] := by simp [h, Ne.symm hc]
    rw [rdropWhile_break hfeed, if_neg (mt Option.some.inj hc)]

/-! ## Sessions -/

namespace Session

/-- What a host does with a session. -/
inductive Act where
  | submit (fuel : Nat) (chunk : String)
  | next
  | write (text : String)

def act (s : Session) : Act → Session
  | .submit fuel chunk => (s.submit fuel chunk).2
  | .next => (s.next?.map Prod.snd).getD s
  | .write text => s.write text

/-- What the run of what is handed over takes off the input. -/
def receiptsOfRun (fuel : Nat) (m : Machine) : Except Fault (ScopeTable × Block) → List Receipt
  | .error _ => []
  | .ok (scopes, b) => ((m.opened scopes).recorded fuel b).receipts (m.opened scopes)

def receiptsOf (s : Session) : Act → List Receipt
  | .submit fuel chunk => receiptsOfRun fuel s.machine (s.handOver chunk)
  | .next => [.host (s.next?.map Prod.fst)]
  | .write _ => []

def acts : Session → List Act → Session
  | s, [] => s
  | s, a :: as => (s.act a).acts as

def receipts : Session → List Act → List Receipt
  | _, [] => []
  | s, a :: as => s.receiptsOf a ++ (s.act a).receipts as

variable {fuel : Nat} {s : Session} {chunk : String}

/-- What a submission hands over is run, and it is this run that is recorded. -/
theorem submit_recorded {scopes : ScopeTable} {b : Block} (h : s.handOver chunk = .ok (scopes, b)) (fuel : Nat) :
    let result := outcome (((s.machine.opened scopes).recorded fuel b).run (s.machine.opened scopes))
    (s.submit fuel chunk).1 = result.1 ∧ (s.submit fuel chunk).2.machine = result.2 := by
  obtain ⟨hresult, hmachine⟩ := Prod.ext_iff.mp (submit_handOver h fuel)
  dsimp only at hresult hmachine
  rw [Machine.resume_eq_opened] at hresult hmachine
  exact ⟨hresult, hmachine⟩

theorem submit_refused {f : Fault} (h : s.handOver chunk = .error f) (fuel : Nat) :
    (s.submit fuel chunk).2.machine = s.machine := by
  cases hp : Program.ofSource (extend s.source chunk) with
  | error f => rw [submit_error hp]
  | ok p =>
    rw [handOver_ok hp] at h
    cases h

theorem drains_act (s : Session) (a : Act) :
    Drains s.machine.console.input (s.receiptsOf a) (s.act a).machine.console.input := by
  cases a with
  | submit fuel chunk =>
    rw [receiptsOf, act]
    cases hhand : s.handOver chunk with
    | error f =>
      rw [submit_refused hhand]
      exact .refl
    | ok handed =>
      obtain ⟨scopes, b⟩ := handed
      let m := s.machine.opened scopes
      obtain ⟨-, hmachine⟩ := submit_recorded hhand fuel
      have hdrains := (m.recorded fuel b).drains m
      have hconsole : m.console = s.machine.console := by
        show (s.machine.opened scopes).console = _
        unfold Machine.opened
        split <;> rfl
      rw [hconsole] at hdrains
      rw [hmachine]
      show Drains _ _ (outcome (b.exec (m.caller fuel) fuel m)).2.console.input
      cases hr : b.exec (m.caller fuel) fuel m <;> rwa [hr] at hdrains
  | next =>
    simp only [receiptsOf, act, next?, Console.next?]
    rcases hinput : s.machine.console.input with _ | ⟨raw, rest⟩
    · refine .ended rfl trivial ?_
      show Drains [] [] s.machine.console.input
      rw [hinput]
      exact .refl
    · exact .line rfl trivial .refl
  | write text =>
    have hinput : (s.act (.write text)).machine.console.input = s.machine.console.input :=
      s.machine.console.input_write text
    rw [hinput]
    exact .refl

theorem drains_acts : ∀ (s : Session) (as : List Act),
    Drains s.machine.console.input (s.receipts as) (s.acts as).machine.console.input
  | _, [] => .refl
  | s, a :: as => (s.drains_act a).trans (drains_acts (s.act a) as)

end Session

/-! ## Deliveries -/

def RawLine.ofLine (line : List Char) : RawLine := .text (String.ofList line)

/-- The receipts are those of these lines, from the front, and this is left. A `gets` evaluates to the line without its
terminator and without the carriage returns before that, or to nil if there is no line left. -/
structure Delivers (lines : List (List Char)) (log : List Receipt) (left : List RawLine) : Prop where
  raw : ∀ (i : Nat) (r : Receipt), log[i]? = some r → r.raw = lines[i]?.map RawLine.ofLine
  value : ∀ (i : Nat) (raw : Option RawLine) (value : Option Value), log[i]? = some (.gets raw value) →
    value = some (lines[i]?.elim .nil fun line =>
      .string (String.ofList (withoutReturns (withoutTerminator line))))
  taken : log.filterMap Receipt.raw = (lines.take log.length).map RawLine.ofLine
  left : left = (lines.drop log.length).map RawLine.ofLine

theorem Drains.delivers {lines : List (List Char)} {log : List Receipt} {left : List RawLine}
    (h : Drains (lines.map RawLine.ofLine) log left) (hlines : ∀ line ∈ lines, '\n' ∉ line.dropLast) :
    Delivers lines log left where
  raw i r hi := by rw [(h.getElem? hi).1, List.getElem?_map]
  value i raw value hi := by
    obtain ⟨hraw, hholds⟩ := h.getElem? hi
    rw [List.getElem?_map] at hraw
    rw [show value = Receipt.valueOf raw from hholds, show raw = _ from hraw]
    cases hline : lines[i]? with
    | none => rfl
    | some line =>
      have hbreak := Console.toList_withoutBreak (hlines line (List.mem_of_getElem? hline))
      rw [Option.elim_some, ← hbreak, String.ofList_toList]
      rfl
  taken := by
    have hraws := h.raws
    rw [h.left_eq, ← List.map_drop] at hraws
    have hlines : (lines.take log.length).map RawLine.ofLine ++ (lines.drop log.length).map RawLine.ofLine =
        lines.map RawLine.ofLine := by
      rw [← List.map_append, List.take_append_drop]
    exact List.append_cancel_right (hraws.trans hlines.symm)
  left := by rw [h.left_eq, List.map_drop]

namespace Session

/-- **Input is delivered once and in order.** A text is the input of a session. Then the lines that are taken off it, by
any `gets` of what is submitted, in calls or not, and by the host, are the lines of the text, from its front and in
their order; put together they are how the text begins. Past the end there is none, and a `gets` evaluates to nil. Else
it evaluates to its line without the terminator and without the carriage returns before that, which is the line without
its terminator unless that ends in a carriage return. What a submission hands over is run as it is recorded here. -/
theorem input_delivered (room : Option Nat) (text : String) (as : List Act) :
    let s := start (.start room text.toUTF8)
    let lines := physicalLines text.toList
    Delivers lines (s.receipts as) (s.acts as).machine.console.input ∧
      (lines.take (s.receipts as).length).flatten <+: text.toList ∧
      (∀ line, withoutReturns (withoutTerminator line) = withoutTerminator line ↔
        (withoutTerminator line).getLast? ≠ some '\r') ∧
      ∀ (s : Session) (chunk : String) (scopes : ScopeTable) (b : Block), s.handOver chunk = .ok (scopes, b) →
        ∀ fuel : Nat,
          let result := outcome (((s.machine.opened scopes).recorded fuel b).run (s.machine.opened scopes))
          (s.submit fuel chunk).1 = result.1 ∧ (s.submit fuel chunk).2.machine = result.2 := by
  intro s lines
  have hinput : s.machine.console.input = lines.map RawLine.ofLine := Console.linesOf_toUTF8 text
  have hdrains := s.drains_acts as
  rw [hinput] at hdrains
  refine ⟨hdrains.delivers ?_, ?_, fun line => withoutReturns_eq_self_iff, ?_⟩
  · intro line hline hfeed
    cases isEnd_of_mem_dropLast hline hfeed
  · have hflat : lines.flatten = text.toList := flatten_splitAfter text.toList
    refine ⟨(lines.drop (s.receipts as).length).flatten, ?_⟩
    rw [← List.flatten_append, List.take_append_drop, hflat]
  · intro s chunk scopes b h fuel
    exact submit_recorded h fuel

/-- Of two carriage returns only the second one belongs to the terminator, but both are gone. -/
theorem input_delivered_returns :
    ∃ raw value, ((start (.start none "a\r\r\n".toUTF8)).receipts [.submit 1 "gets", .next])[0]? =
        some (.gets raw value) ∧
      raw = some (.text "a\r\r\n") ∧ value = some (.string "a") ∧
      String.ofList (withoutTerminator "a\r\r\n".toList) = "a\r" ∧
      let m := (start (.start none "a\r\r\n".toUTF8)).machine.opened .initial
      ((start (.start none "a\r\r\n".toUTF8)).submit 1 "gets").2.machine =
        (outcome ((m.recorded 1 ⟨1, [.gets 1]⟩).run m)).2 := by
  have hp : Program.ofSource (extend "" "gets") = .ok ⟨⟨1, [.gets 1]⟩, .initial⟩ := by
    have hl : LogicalLine.ofSource (extend "" "gets") = .ok [[⟨.kwGets, "gets", 1⟩]] := by with_unfolding_all rfl
    exact (Program.ofSource_eq_off hl).trans rfl
  have hhand (console : Console) : (start console).handOver "gets" = .ok (.initial, ⟨1, [.gets 1]⟩) :=
    handOver_ok (s := start console) hp
  have hgets (m : Machine) : ∃ raw value rest, (m.recorded 1 ⟨1, [.gets 1]⟩).receipts m = .gets raw value :: rest :=
    ⟨_, _, _, rfl⟩
  obtain ⟨raw, value, rest, hgets⟩ := hgets ((start (.start none "a\r\r\n".toUTF8)).machine.opened .initial)
  have hlog : ((start (.start none "a\r\r\n".toUTF8)).receipts [.submit 1 "gets", .next])[0]? =
      some (.gets raw value) := by
    rw [receipts, receiptsOf, hhand, receiptsOfRun, hgets]
    rfl
  obtain ⟨hdelivers, -, -, hruns⟩ := input_delivered none "a\r\r\n" [.submit 1 "gets", .next]
  refine ⟨raw, value, hlog, ?_, ?_, rfl, (hruns _ _ _ _ (hhand _) 1).2⟩
  · exact (hdelivers.raw 0 _ hlog).trans rfl
  · exact (hdelivers.value 0 raw value hlog).trans rfl

end Session

end Sprig
