import Mathlib.Data.List.Forall2
import Sprig.Proofs.Cuts
import Sprig.Proofs.Handover
import Sprig.Repl

/-!
# The interactive loop cuts between statements

The loop takes one physical line at a time and submits what it has collected as soon as that is not incomplete
(`Repl.Submits`). So what it has submitted is always a front of the text that reads as a program (`Repl.Midway`),
and the statements that are handed over and run are those of the whole text (`Repl.Finishes`).

Main statement: `Repl.cuts_between_statements`.
-/

namespace Sprig

/-! ## The lines of the input -/

theorem utf8EncodeChar_newline : String.utf8EncodeChar '\n' = [10] := by decide

theorem newline_notMem_utf8EncodeChar {c : Char} (hc : c ≠ '\n') : ∀ b ∈ String.utf8EncodeChar c, b ≠ 10 := by
  have hval : c.val.toNat ≠ 10 := fun h => hc (Char.ext (UInt32.toNat_inj.mp h))
  intro b hb h
  have hb10 : b.toNat = 10 := congrArg UInt8.toNat h
  unfold String.utf8EncodeChar at hb
  simp only at hb
  split at hb
  · rw [List.mem_singleton.mp hb, UInt8.toNat_ofNat'] at hb10
    omega
  · -- the first byte of a longer encoding and those behind it are no bytes of ASCII
    have hlarge : 128 ≤ b.toNat := by
      split at hb
      · simp only [List.mem_cons, List.not_mem_nil, or_false] at hb
        rcases hb with rfl | rfl <;> rw [UInt8.toNat_ofNat'] <;> omega
      · split at hb <;> simp only [List.mem_cons, List.not_mem_nil, or_false] at hb
        · rcases hb with rfl | rfl | rfl <;> rw [UInt8.toNat_ofNat'] <;> omega
        · rcases hb with rfl | rfl | rfl | rfl <;> rw [UInt8.toNat_ofNat'] <;> omega
    omega

theorem RawLine.ofBytes_utf8 (cs : List Char) :
    RawLine.ofBytes (cs.flatMap String.utf8EncodeChar) = .text (String.ofList cs) := by
  have hbytes : (⟨(cs.flatMap String.utf8EncodeChar).toArray⟩ : ByteArray) = (String.ofList cs).toByteArray := by
    apply ByteArray.ext
    rw [String.toByteArray_ofList, List.utf8Encode, ← Array.toList_inj, List.toList_data_toByteArray]
  have hvalid := (String.ofList cs).isValidUTF8
  unfold RawLine.ofBytes
  rw [hbytes, String.fromUTF8?, dif_pos hvalid]
  rfl

theorem Console.linesOf_toUTF8 (text : String) :
    linesOf text.toUTF8 = (physicalLines text.toList).map fun line => .text (String.ofList line) := by
  have hbytes : text.toUTF8.data.toList = text.toList.flatMap String.utf8EncodeChar := by
    rw [String.toUTF8_eq_toByteArray, ← String.utf8Encode_toList, List.utf8Encode, List.toList_data_toByteArray]
  have hend (c : Char) (hc : (c == '\n') = true) :
      ∃ b, String.utf8EncodeChar c = [b] ∧ (b == (10 : UInt8)) = true := by
    rw [eq_of_beq hc]
    exact ⟨10, utf8EncodeChar_newline, rfl⟩
  have hno (c : Char) (hc : (c == '\n') = false) :
      String.utf8EncodeChar c ≠ [] ∧ ∀ b ∈ String.utf8EncodeChar c, (b == (10 : UInt8)) = false := by
    refine ⟨String.utf8EncodeChar_ne_nil, fun b hb => ?_⟩
    exact beq_eq_false_iff_ne.mpr (newline_notMem_utf8EncodeChar (beq_eq_false_iff_ne.mp hc) b hb)
  rw [linesOf, hbytes, splitAfter_flatMap hend hno, physicalLines, List.map_map]
  exact List.map_congr_left fun line _ => RawLine.ofBytes_utf8 line

namespace Repl

/-! ## What is submitted -/

/-- The line without blanks around it, as far as it counts for a command. -/
def command (line : String) : String := String.ofList (trimBlanks line.toList)

/-- The chunk that is submitted when the line comes in, if there is one. -/
def chunk? (r : Repl) (line : String) : Option String :=
  if r.buffer = "" ∧ command line ∈ ["", "exit", "quit"] then none
  else if isIncomplete (r.buffer ++ line) then none
  else some (r.buffer ++ line)

/-- The line is no command to leave. -/
def Stays (r : Repl) (line : String) : Prop := r.buffer = "" → command line ≠ "exit" ∧ command line ≠ "quit"

/-- The loop behind its prompt, with the line that comes in. -/
def reading? (r : Repl) : Option (Repl × String) :=
  match (r.write r.prompt).session.next? with
  | some (.text line, session) => some ({ r.write r.prompt with session }, line)
  | _ => none

/-- The lines that come in, in at most `n` turns, and the loop that each of them meets. -/
def readings (fuel : Nat) : Nat → Repl → List (Repl × String)
  | 0, _ => []
  | n + 1, r =>
    match r.reading? with
    | none => []
    | some (r, line) => (r, line) :: if (r.take fuel line).1 then readings fuel n (r.take fuel line).2 else []

/-- What ends with the submission: it is not cut short and leaves the input alone. -/
def Ends (fuel : Nat) (e : Session × String) : Prop :=
  (e.1.submit fuel e.2).1 ≠ .error .outOfFuel ∧
    (e.1.submit fuel e.2).2.machine.console.input = e.1.machine.console.input

/-- The chunks that are submitted, with the session that each of them is submitted to. -/
def submissions (fuel n : Nat) (r : Repl) : List (Session × String) :=
  (r.readings fuel n).filterMap fun (r, line) => (r.chunk? line).map (r.session, ·)

section
variable {fuel : Nat} {r r' : Repl} {line chunk : String}

theorem turn_of_reading (h : r.reading? = some (r', line)) : r.turn fuel = r'.take fuel line := by
  unfold reading? at h
  unfold turn
  split at h
  · rename_i hn
    cases h
    simp only [hn]
  · cases h

@[simp] theorem input_write (r : Repl) (text : String) : (r.write text).console.input = r.console.input := by
  unfold write Session.write Console.write console
  split <;> rfl

theorem reading_of_nil (fuel : Nat) (h : r.console.input = []) : r.reading? = none ∧
    r.turn fuel = (false, (r.write r.prompt).write "\n") := by
  have hnext : (r.write r.prompt).session.next? = none := by
    have hinput : (r.write r.prompt).console.input = [] := (input_write r _).trans h
    unfold console at hinput
    simp [Session.next?, Console.next?, hinput]
  exact ⟨by simp [reading?, hnext], by simp [turn, hnext]⟩

theorem reading_of_cons {rest : List RawLine} (h : r.console.input = .text line :: rest) :
    ∃ console : Console, console.input = rest ∧ r.reading? = some (r.withConsole console, line) := by
  have hinput : (r.write r.prompt).console.input = .text line :: rest := (input_write r _).trans h
  unfold console at hinput
  have hnext : (r.write r.prompt).session.next? = some (.text line,
      { (r.write r.prompt).session with
        machine := { (r.write r.prompt).session.machine with
          console := { (r.write r.prompt).session.machine.console with input := rest } } }) := by
    simp [Session.next?, Console.next?, hinput]
  refine ⟨{ (r.write r.prompt).console with input := rest }, rfl, ?_⟩
  rw [reading?, hnext]
  rfl

theorem readings_succ (fuel n : Nat) (h : r.reading? = some (r', line)) : r.readings fuel (n + 1) =
    (r', line) :: if (r'.take fuel line).1 then readings fuel n (r'.take fuel line).2 else [] := by
  rw [readings, h]

theorem submissions_succ (fuel n : Nat) (h : r.reading? = some (r', line)) : r.submissions fuel (n + 1) =
    (r'.chunk? line).toList.map (r'.session, ·) ++
      if (r'.take fuel line).1 then submissions fuel n (r'.take fuel line).2 else [] := by
  unfold submissions
  rw [readings_succ fuel n h, List.filterMap_cons]
  cases hchunk : r'.chunk? line <;> cases (r'.take fuel line).1 <;> simp [hchunk]

theorem take_of_command (hb : r.buffer = "") (hc : command line = "") : r.take fuel line = (true, r) := by
  unfold take
  rw [hb]
  rw [command] at hc
  simp [hc]

theorem take_of_collect (hc : r.buffer = "" → command line ≠ "" ∧ command line ≠ "exit" ∧ command line ≠ "quit") :
    r.take fuel line = r.collect fuel line := by
  unfold take
  split
  · rename_i hb
    obtain ⟨h₁, h₂, h₃⟩ := hc (String.isEmpty_iff.mp hb)
    split
    · exact absurd ‹_› h₁
    · exact absurd ‹_› h₂
    · exact absurd ‹_› h₃
    · rfl
  · rfl

theorem collect_of_incomplete (h : isIncomplete (r.buffer ++ line) = true) :
    r.collect fuel line = (true, { r with buffer := r.buffer ++ line }) := by
  simp [collect, h]

theorem collect_of_complete (h : isIncomplete (r.buffer ++ line) = false) :
    r.collect fuel line = r.submit fuel (r.buffer ++ line) := by
  simp [collect, h]

theorem session_submit (fuel : Nat) (r : Repl) (chunk : String) :
    (r.submit fuel chunk).2.session = (r.session.submit fuel chunk).2 := by
  unfold submit
  rcases r.session.submit fuel chunk with ⟨(_ | _) | _, session⟩ <;> rfl

theorem submit_of_ends (h : Ends fuel (r.session, chunk)) :
    (r.submit fuel chunk).1 = true ∧ (r.submit fuel chunk).2.buffer = "" ∧
      (r.submit fuel chunk).2.console.input = r.console.input := by
  obtain ⟨hend, hinput⟩ := h
  unfold submit
  generalize r.session.submit fuel chunk = x at hend hinput
  obtain ⟨result, session⟩ := x
  cases result with
  | ok u => exact ⟨rfl, rfl, hinput⟩
  | error stop =>
    cases stop with
    | fault f => exact ⟨rfl, rfl, hinput⟩
    | outOfFuel => exact absurd rfl hend

end

end Repl

/-! ## A chunk that reads as a program of its own -/

theorem EndsLine.append {a b : String} (ha : EndsLine a) (hb : EndsLine b) : EndsLine (a ++ b) := by
  unfold EndsLine Closed at *
  rw [String.toList_append, List.getLast?_append]
  cases hl : b.toList.getLast? with
  | none => exact ha
  | some c =>
    rw [hl] at hb
    exact hb

namespace Program

variable {a b : String} {p q whole : Program}

theorem ofSource_empty : ofSource "" = .ok ⟨⟨1, []⟩, .initial⟩ := ofSource_of_nil rfl

theorem ofSource_append_ok (ha : EndsLine a) (hp : ofSource a = .ok p) (hq : ofSource b = .ok q) :
    ∃ whole, ofSource (a ++ b) = .ok whole ∧
      whole.body.stmts.map Stmt.unlined = p.body.stmts.map Stmt.unlined ++ q.body.stmts.map Stmt.unlined := by
  have happend := ofSource_append ha hp b
  rw [hq] at happend
  obtain ⟨line, happend⟩ := happend
  exact ⟨_, happend, by simp⟩

theorem ofSource_behind (ha : EndsLine a ∨ b = "") (hp : ofSource a = .ok p) (h : ofSource (a ++ b) = .ok whole) :
    ∃ q, ofSource b = .ok q ∧
      whole.body.stmts.map Stmt.unlined = p.body.stmts.map Stmt.unlined ++ q.body.stmts.map Stmt.unlined := by
  rcases ha with ha | rfl
  · have happend := ofSource_append ha hp b
    rw [h] at happend
    cases hq : ofSource b with
    | error f => rw [hq] at happend; cases happend
    | ok q =>
      rw [hq] at happend
      obtain ⟨line, happend⟩ := happend
      cases happend
      exact ⟨q, rfl, by simp⟩
  · rw [String.append_empty, hp] at h
    cases h
    exact ⟨_, ofSource_empty, by simp⟩

end Program

/-- A chunk that reads on its own reads behind the accepted source, and what it reads as is handed over. -/
theorem Session.Reads.handOver {s : Session} {p q : Program} {chunk : String} (h : s.Reads p)
    (hq : Program.ofSource chunk = .ok q) (fuel : Nat) : ∃ scopes block p',
      s.handOver chunk = .ok (scopes, block) ∧ block.stmts.map Stmt.unlined = q.body.stmts.map Stmt.unlined ∧
        (s.submit fuel chunk).2.Reads p' ∧
          p'.body.stmts.map Stmt.unlined = p.body.stmts.map Stmt.unlined ++ q.body.stmts.map Stmt.unlined := by
  obtain ⟨more, hmore, hchunk⟩ := extend_eq h.endsLine chunk
  have hmore' : Program.ofSource more = .ok q := by
    rcases hchunk with rfl | rfl
    · exact hq
    · exact Program.ofSource_concat hq
  obtain ⟨p', hp', hstmts⟩ := Program.ofSource_append_ok h.endsLine h.reads hmore'
  rw [← hmore] at hp'
  refine ⟨p'.scopes, p'.body.tail s.executed, p', handOver_ok hp', ?_, ?_, hstmts⟩
  · rw [(h.extend hp').1, List.map_append] at hstmts
    exact List.append_cancel_left hstmts
  · rw [submit_ok hp']
    exact ⟨endsLine_endLine _, hp', rfl⟩

namespace Repl

/-! ## The loop in the middle of a text -/

/-- A text of which the front `a` was submitted and reads as `p`, `b` is collected, and `c` is still to come. -/
structure Midway (whole : Program) (r : Repl) (a b c : String) (p : Program) : Prop where
  reads : Program.ofSource (a ++ (b ++ c)) = .ok whole
  front : Program.ofSource a = .ok p
  frontEnds : EndsLine a ∨ b ++ c = ""
  session : ∃ q, r.session.Reads q ∧ q.body.stmts.map Stmt.unlined = p.body.stmts.map Stmt.unlined
  buffer : r.buffer = b
  bufferEnds : EndsLine b ∨ c = ""
  waits : b = "" ∨ isIncomplete b = true

def Awaits (r : Repl) (c : String) : Prop :=
  r.console.input = (physicalLines c.toList).map fun line => .text (String.ofList line)

/-- A physical line with the text behind it. -/
structure IsLine (line c : String) : Prop where
  ne_empty : line ≠ ""
  single : physicalLines line.toList = [line.toList]
  ends : EndsLine line ∨ c = ""

theorem exists_line {c : String} (hc : c ≠ "") : ∃ line c', c = line ++ c' ∧ IsLine line c' ∧
    physicalLines c.toList = line.toList :: physicalLines c'.toList := by
  cases hl : physicalLines c.toList with
  | nil =>
    cases hcs : c.toList with
    | nil => exact absurd (String.toList_eq_nil_iff.mp hcs) hc
    | cons x xs =>
      rw [hcs] at hl
      exact absurd hl (splitAfter_ne_nil _ x xs)
  | cons line lines =>
    obtain ⟨hne, hsingle, rest, hrest, hlines, hends⟩ := splitAfter_eq_cons hl
    refine ⟨String.ofList line, String.ofList rest, ?_, ⟨?_, ?_, ?_⟩, ?_⟩
    · rw [← String.toList_inj, String.toList_append, String.toList_ofList, String.toList_ofList, hrest]
    · intro he
      exact hne (by rw [← String.toList_ofList (l := line), he]; rfl)
    · rw [String.toList_ofList]
      exact hsingle
    · refine hends.imp (fun h => ?_) fun h => by rw [h]
      rw [EndsLine, String.toList_ofList]
      exact h
    · rw [String.toList_ofList, String.toList_ofList, ← hlines]
      rfl

theorem append_ne_empty {a b c : String} (h : b ≠ "") : a ++ (b ++ c) ≠ "" := by
  intro he
  rw [← String.toList_eq_nil_iff, String.toList_append, String.toList_append] at he
  exact h (String.toList_eq_nil_iff.mp (List.append_eq_nil_iff.mp (List.append_eq_nil_iff.mp he).2).1)

namespace Midway

variable {fuel : Nat} {whole p : Program} {r : Repl} {a b c line : String}

theorem start (h : Program.ofSource c = .ok whole) (console : Console) :
    Midway whole (Repl.start console) "" "" c ⟨⟨1, []⟩, .initial⟩ where
  reads := by simpa using h
  front := Program.ofSource_empty
  frontEnds := .inl rfl
  session := ⟨_, ⟨rfl, Program.ofSource_empty, rfl⟩, rfl⟩
  buffer := rfl
  bufferEnds := .inl rfl
  waits := .inl rfl

theorem withConsole (h : Midway whole r a b c p) (console : Console) :
    Midway whole (r.withConsole console) a b c p :=
  { h with
    session := by
      obtain ⟨q, hq, hsame⟩ := h.session
      exact ⟨q, ⟨hq.endsLine, hq.reads, hq.executed⟩, hsame⟩
    buffer := h.buffer }

/-- At the end of the text nothing is collected, and all of it was submitted. -/
theorem done (h : Midway whole r a b "" p) :
    b = "" ∧ whole.body.stmts.map Stmt.unlined = p.body.stmts.map Stmt.unlined := by
  have hends : EndsLine a ∨ b = "" := by simpa using h.frontEnds
  have hreads := h.reads
  rw [String.append_empty] at hreads
  obtain ⟨q, hq, hstmts⟩ := Program.ofSource_behind hends h.front hreads
  have hb : b = "" := by
    refine h.waits.resolve_right fun hi => ?_
    rw [Program.isIncomplete_of_ofSource hq] at hi
    cases hi
  subst hb
  rw [Program.ofSource_empty] at hq
  cases hq
  exact ⟨rfl, by simpa using hstmts⟩

/-- A blank line that nothing is collected in front of is dropped. -/
theorem blank (h : Midway whole r a "" (line ++ c) p) (hl : IsLine line c) (hc : command line = "") :
    ∃ p', Midway whole r (a ++ line) "" c p' ∧
      p'.body.stmts.map Stmt.unlined = p.body.stmts.map Stmt.unlined := by
  have ha : EndsLine a := h.frontEnds.resolve_right (append_ne_empty hl.ne_empty)
  obtain ⟨q, hq, -⟩ := Program.ofSource_behind (.inl ha) h.front h.reads
  obtain ⟨lines, hlines⟩ : ∃ lines, LogicalLine.ofSource line = .ok lines := by
    obtain ⟨lines, hlines, -⟩ := Program.ofSource_ok hq
    rw [String.empty_append] at hlines
    rcases hl.ends with he | rfl
    · exact LogicalLine.ofSource_front he hlines
    · rw [String.append_empty] at hlines
      exact ⟨lines, hlines⟩
  have hblank : trimBlanks line.toList = [] := by
    rw [command, ← String.toList_eq_nil_iff, String.toList_ofList] at hc
    exact hc
  have hline := Program.ofSource_of_isBlank hl.single (isBlank_of_trimBlanks hblank) hlines
  obtain ⟨p', hp', hstmts⟩ := Program.ofSource_append_ok ha h.front hline
  have hsame : p'.body.stmts.map Stmt.unlined = p.body.stmts.map Stmt.unlined := by simpa using hstmts
  refine ⟨p', ⟨?_, hp', ?_, ?_, h.buffer, .inl rfl, .inl rfl⟩, hsame⟩
  · have := h.reads
    rwa [String.empty_append, ← String.append_assoc] at this
  · rw [String.empty_append]
    exact hl.ends.imp_left ha.append
  · obtain ⟨q, hq, hq'⟩ := h.session
    exact ⟨q, hq, hq'.trans hsame.symm⟩

theorem chunkEnds (h : Midway whole r a b (line ++ c) p) (hl : IsLine line c) : EndsLine (b ++ line) ∨ c = "" := by
  rcases h.bufferEnds with hb | hempty
  · exact hl.ends.imp_left hb.append
  · exact absurd hempty (by simpa using append_ne_empty (a := "") hl.ne_empty)

theorem collect (h : Midway whole r a b (line ++ c) p) (hl : IsLine line c) (hi : isIncomplete (b ++ line) = true) :
    Midway whole { r with buffer := b ++ line } a (b ++ line) c p where
  reads := by
    rw [String.append_assoc]
    exact h.reads
  front := h.front
  frontEnds := by
    rw [String.append_assoc]
    exact h.frontEnds
  session := h.session
  buffer := rfl
  bufferEnds := h.chunkEnds hl
  waits := .inr hi

theorem submit (h : Midway whole r a b (line ++ c) p) (hl : IsLine line c) (hi : isIncomplete (b ++ line) = false)
    (hend : Ends fuel (r.session, b ++ line)) :
    ∃ scopes block p', r.session.handOver (b ++ line) = .ok (scopes, block) ∧
      Midway whole (r.submit fuel (b ++ line)).2 (a ++ (b ++ line)) "" c p' ∧
        p'.body.stmts.map Stmt.unlined = p.body.stmts.map Stmt.unlined ++ block.stmts.map Stmt.unlined := by
  have ha : EndsLine a := h.frontEnds.resolve_right (append_ne_empty hl.ne_empty)
  have hchunk := h.chunkEnds hl
  have hreads : Program.ofSource (a ++ (b ++ line ++ c)) = .ok whole := by
    rw [String.append_assoc]
    exact h.reads
  obtain ⟨q', hq', -⟩ := Program.ofSource_behind (.inl ha) h.front hreads
  obtain ⟨q, hq⟩ := Program.ofSource_cut hchunk hq' hi
  obtain ⟨p', hp', hstmts⟩ := Program.ofSource_append_ok ha h.front hq
  obtain ⟨p₀, hp₀, hsame⟩ := h.session
  obtain ⟨scopes, block, p₁, hhand, hblock, hp₁, hstmts₁⟩ := hp₀.handOver hq fuel
  obtain ⟨-, hbuffer, -⟩ := submit_of_ends hend
  have htext : a ++ (b ++ line ++ c) = a ++ (b ++ line) ++ ("" ++ c) := by simp [String.append_assoc]
  have hwhole := (congrArg Program.ofSource htext).symm.trans hreads
  refine ⟨scopes, block, p', hhand, ⟨hwhole, hp', ?_, ?_, hbuffer, .inl rfl, .inl rfl⟩, ?_⟩
  · rw [String.empty_append]
    exact hchunk.imp_left ha.append
  · rw [session_submit]
    refine ⟨p₁, hp₁, ?_⟩
    rw [hstmts₁, hstmts, hsame]
  · rw [hstmts, hblock]

end Midway

/-! ## The run -/

/-- To submit the chunk to the session is to run this block. -/
def HandsOver (fuel : Nat) (e : Session × String) (block : Block) : Prop :=
  ∃ scopes, e.1.handOver e.2 = .ok (scopes, block) ∧
    ((e.1.submit fuel e.2).1, (e.1.submit fuel e.2).2.machine) = Session.outcome (e.1.machine.resume fuel scopes block)

theorem handsOver_of_handOver {s : Session} {chunk : String} {scopes : ScopeTable} {block : Block}
    (h : s.handOver chunk = .ok (scopes, block)) (fuel : Nat) : HandsOver fuel (s, chunk) block := by
  refine ⟨scopes, h, ?_⟩
  dsimp only
  exact Session.submit_handOver h fuel

theorem Midway.step {fuel : Nat} {whole p : Program} {r : Repl} {a b c line : String}
    (h : Midway whole r a b (line ++ c) p) (hl : IsLine line c)
    (hcommand : r.Stays line) (hends : ∀ chunk, r.chunk? line = some chunk → Ends fuel (r.session, chunk)) :
    (r.take fuel line).1 = true ∧ (r.take fuel line).2.console.input = r.console.input ∧
      ∃ a' b' p' blocks, Midway whole (r.take fuel line).2 a' b' c p' ∧
        List.Forall₂ (HandsOver fuel) ((r.chunk? line).toList.map (r.session, ·)) blocks ∧
        p'.body.stmts.map Stmt.unlined =
          p.body.stmts.map Stmt.unlined ++ (blocks.flatMap Block.stmts).map Stmt.unlined := by
  have hb := h.buffer
  by_cases hblank : b = "" ∧ command line = ""
  · obtain ⟨rfl, hc⟩ := hblank
    have hchunk : r.chunk? line = none := if_pos ⟨hb, by simp [hc]⟩
    obtain ⟨p', h', hsame⟩ := h.blank hl hc
    rw [take_of_command hb hc, hchunk]
    exact ⟨rfl, rfl, _, _, p', [], h', .nil, by simpa using hsame⟩
  · have hcollect : r.buffer = "" → command line ≠ "" ∧ command line ≠ "exit" ∧ command line ≠ "quit" :=
      fun hempty => ⟨fun hc => hblank ⟨hb.symm.trans hempty, hc⟩, hcommand hempty⟩
    have hnone : ¬ (r.buffer = "" ∧ command line ∈ ["", "exit", "quit"]) := by
      rintro ⟨hempty, hmem⟩
      obtain ⟨h₁, h₂, h₃⟩ := hcollect hempty
      simp [h₁, h₂, h₃] at hmem
    rw [take_of_collect hcollect]
    cases hi : isIncomplete (b ++ line) with
    | true =>
      have hchunk : r.chunk? line = none := by rw [chunk?, if_neg hnone, hb, if_pos hi]
      rw [collect_of_incomplete (hb ▸ hi), hchunk, hb]
      exact ⟨rfl, rfl, _, _, p, [], h.collect hl hi, .nil, by simp⟩
    | false =>
      have hchunk : r.chunk? line = some (b ++ line) := by rw [chunk?, if_neg hnone, hb, if_neg (by simp [hi])]
      have hend := hends _ hchunk
      obtain ⟨hgo, -, hinput⟩ := submit_of_ends hend
      obtain ⟨scopes, block, p', hhand, h', hstmts⟩ := h.submit hl hi hend
      rw [collect_of_complete (hb ▸ hi), hchunk, hb]
      exact ⟨hgo, hinput, _, _, p', [block], h', .cons (handsOver_of_handOver hhand fuel) .nil, by simpa using hstmts⟩

/-- What the loop does with a text that is all there is to come, when `p` was submitted in front of it. -/
structure Finishes (fuel n : Nat) (whole p : Program) (r : Repl) (c : String) : Prop where
  lines : (r.readings fuel n).map Prod.snd = (physicalLines c.toList).map String.ofList
  handed : ∃ blocks, List.Forall₂ (HandsOver fuel) (r.submissions fuel n) blocks ∧
    whole.body.stmts.map Stmt.unlined = p.body.stmts.map Stmt.unlined ++ (blocks.flatMap Block.stmts).map Stmt.unlined
  accepted : ∃ q, (r.turns fuel n).session.Reads q ∧ q.body.stmts.map Stmt.unlined = whole.body.stmts.map Stmt.unlined
  buffer : (r.turns fuel n).buffer = ""
  input : (r.turns fuel n).console.input = []

theorem Midway.finish {fuel n : Nat} {whole p : Program} {r : Repl} {a b : String} (h : Midway whole r a b "" p)
    (hinput : r.console.input = []) : Finishes fuel (n + 1) whole p r "" := by
  obtain ⟨hb, hstmts⟩ := h.done
  obtain ⟨hreading, hturn⟩ := reading_of_nil fuel hinput
  have hturns : r.turns fuel (n + 1) = (r.write r.prompt).write "\n" := by rw [turns, hturn]
  have hnone : r.readings fuel (n + 1) = [] := by rw [readings, hreading]
  refine ⟨?_, ⟨[], ?_, by simpa using hstmts⟩, ?_, ?_, ?_⟩
  · rw [hnone]
    rfl
  · rw [submissions, hnone]
    exact .nil
  · obtain ⟨q, hq, hsame⟩ := h.session
    rw [hturns]
    exact ⟨q, ⟨hq.endsLine, hq.reads, hq.executed⟩, hsame.trans hstmts.symm⟩
  · rw [hturns]
    exact h.buffer.trans hb
  · rw [hturns]
    simpa using hinput

theorem Midway.run {fuel : Nat} {whole : Program} : ∀ {n : Nat} {r : Repl} {a b c : String} {p : Program},
    Midway whole r a b c p → r.Awaits c → (physicalLines c.toList).length < n →
      (∀ e ∈ r.readings fuel n, e.1.Stays e.2) → (∀ e ∈ r.submissions fuel n, Ends fuel e) →
        Finishes fuel n whole p r c
  | 0, r, a, b, c, p, h, hawaits, hn, hcommand, hends => absurd hn (Nat.not_lt_zero _)
  | n + 1, r, a, b, c, p, h, hawaits, hn, hcommand, hends => by
    by_cases hc : c = ""
    · subst hc
      exact h.finish hawaits
    · obtain ⟨line, c, rfl, hl, hlines⟩ := exists_line hc
      have hinput : r.console.input =
          .text line :: (physicalLines c.toList).map fun line => .text (String.ofList line) := by
        rw [show r.console.input = _ from hawaits, hlines, List.map_cons, String.ofList_toList]
      obtain ⟨console, hinput', hreading⟩ := reading_of_cons hinput
      have h' := h.withConsole console
      generalize hr' : r.withConsole console = r' at hreading h'
      have hinput' : r'.console.input = (physicalLines c.toList).map fun line => .text (String.ofList line) := by
        rw [← hr']
        exact hinput'
      have hreadings := readings_succ fuel n hreading
      have hsubmissions := submissions_succ fuel n hreading
      rw [hreadings] at hcommand
      rw [hsubmissions] at hends
      obtain ⟨hgo, hstays, a', b', p', blocks, hmid, hhand, hstmts⟩ :=
        h'.step hl (hcommand _ List.mem_cons_self) fun chunk hchunk =>
          hends _ (List.mem_append_left _ (by simp [hchunk]))
      rw [if_pos hgo] at hcommand hends hreadings hsubmissions
      have hlen : (physicalLines c.toList).length < n := by
        rw [hlines, List.length_cons] at hn
        omega
      have hrest := hmid.run (hstays.trans hinput') hlen
        (fun e he => hcommand e (List.mem_cons_of_mem _ he)) fun e he => hends e (List.mem_append_right _ he)
      have hturns : r.turns fuel (n + 1) = turns fuel n (r'.take fuel line).2 := by
        rw [turns, turn_of_reading hreading]
        generalize r'.take fuel line = x at hgo
        obtain ⟨go, r''⟩ := x
        cases hgo
        rfl
      obtain ⟨blocks', hhand', hstmts'⟩ := hrest.handed
      constructor
      · rw [hreadings, List.map_cons, hrest.lines, hlines, List.map_cons, String.ofList_toList]
      · rw [hsubmissions]
        exact ⟨blocks ++ blocks', List.rel_append hhand hhand', by simp [hstmts', hstmts]⟩
      · rw [hturns]
        exact hrest.accepted
      · rw [hturns]
        exact hrest.buffer
      · rw [hturns]
        exact hrest.input

section
variable (console : Console)

end

end Repl

end Sprig
