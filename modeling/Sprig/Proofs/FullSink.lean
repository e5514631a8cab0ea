import Sprig.Proofs.CallFrames
import Sprig.Proofs.RunRelation

/-!
# Output that fails

A run with room for `b` bytes of output is held against the run of the same program with room for any. As long as the
output fits, the machines differ in their room alone (`Machine.limit`). The first text that does not fit stops the one
run, and whatever the other one does from there on, its output only grows, so that the first `b` bytes of it are those
that the sink has taken (`Eval.Cut`).

Main statement: `Program.full_sink_stops`.
-/

namespace Sprig

/-! ## Bytes -/

theorem extract_of_size_le {bytes : ByteArray} {n : Nat} (h : bytes.size ≤ n) : bytes.extract 0 n = bytes := by
  ext1
  simp [ByteArray.data_extract, h]

theorem extract_append_of_le {bytes more : ByteArray} {n : Nat} (h : n ≤ bytes.size) :
    (bytes ++ more).extract 0 n = bytes.extract 0 n := by
  simp [ByteArray.extract_append, Nat.sub_eq_zero_of_le h]

/-! ## Machines with a limit -/

/-- The machine with room for what is left of `b` bytes. -/
def Machine.limit (b : Nat) (m : Machine) : Machine :=
  { m with console := { m.console with room := some (b - m.console.output.size) } }

/-- There is room for any output, and what has been written is at most `b` bytes. -/
structure Machine.Free (b : Nat) (m : Machine) : Prop where
  room : m.console.room = none
  size : m.console.output.size ≤ b

/-- There is room for any output still, and nothing of what was written is gone. -/
structure Machine.Grows (m m' : Machine) : Prop where
  room : m'.console.room = none
  output : ∃ more, m'.console.output = m.console.output ++ more

namespace Machine

variable {b : Nat} {m m₁ m₂ : Machine}

theorem Grows.of_console (hroom : m.console.room = none) (h : m₁.console = m.console) : m.Grows m₁ := by
  constructor
  · rw [h, hroom]
  · exact ⟨.empty, by rw [h, ByteArray.append_empty]⟩

theorem Grows.trans (h : m.Grows m₁) (h' : m₁.Grows m₂) : m.Grows m₂ := by
  obtain ⟨more, hmore⟩ := h.output
  obtain ⟨more', hmore'⟩ := h'.output
  exact ⟨h'.room, more ++ more', by rw [hmore', hmore, ByteArray.append_assoc]⟩

theorem Grows.leave (h : m.Grows m₁) : m.Grows m₁.leave := ⟨h.room, h.output⟩

theorem limit_set? (name : String) (v : Value) : (m.limit b).set? name v = (m.set? name v).map (limit b) := by
  unfold set? limit
  by_cases hg : isGlobalName name = true
  · simp only [hg, if_true]
    cases m.globals.set? name v <;> rfl
  · simp only [hg]
    cases hf : m.frames with
    | nil => rfl
    | cons f below => cases hset : f.set? name v <;> simp [hset]

theorem console_set? {name : String} {v : Value} (h : m.set? name v = some m₁) : m₁.console = m.console := by
  rcases set?_cases h with ⟨g, -, rfl⟩ | ⟨f, below, g, -, -, rfl⟩ <;> rfl

theorem console_bind (params : List String) (args : List Value) (m : Machine) :
    (m.bind params args).console = m.console := by
  induction params generalizing args m with
  | nil => rfl
  | cons p params ih =>
    cases args with
    | nil => rfl
    | cons v args =>
      rw [bind, ih]
      cases hset : m.set? p v with
      | none => rfl
      | some m₁ => exact console_set? hset

theorem limit_bind (params : List String) (args : List Value) (m : Machine) :
    (m.limit b).bind params args = (m.bind params args).limit b := by
  induction params generalizing args m with
  | nil => rfl
  | cons p params ih =>
    cases args with
    | nil => rfl
    | cons v args =>
      rw [bind, bind, limit_set?, ← ih]
      cases m.set? p v <;> rfl

theorem limit_enter (f : Func) (args : List Value) (m : Machine) :
    (m.limit b).enter f args = (m.enter f args).limit b :=
  limit_bind f.params args (m.push f.scope)

theorem console_enter (f : Func) (args : List Value) (m : Machine) : (m.enter f args).console = m.console :=
  console_bind f.params args (m.push f.scope)

end Machine

/-! ## Two runs -/

namespace Eval

variable {α β γ δ : Type}

/-- The runs are the same but for the room, or the one with the limit was cut off where the output got too big. -/
inductive Cut (b : Nat) (u : α → β) : EStateM.Result Stop Machine α → EStateM.Result Stop Machine β → Prop where
  | ok {a m} : m.Free b → Cut b u (.ok a m) (.ok (u a) (m.limit b))
  | error {stop m} : m.Free b → Cut b u (.error stop m) (.error stop (m.limit b))
  | full {r line m'} : b < (after r).console.output.size →
    m'.console.output = (after r).console.output.extract 0 b →
    Cut b u r (.error (.fault ⟨line, .runtime (.outputFailed Console.full)⟩) m')

theorem Cut.later {b : Nat} {v : γ → δ} {r : EStateM.Result Stop Machine α} {r₁ : EStateM.Result Stop Machine γ}
    {line : Nat} {m' : Machine} (hsize : b < (after r).console.output.size)
    (houtput : m'.console.output = (after r).console.output.extract 0 b) (h : (after r).Grows (after r₁)) :
    Cut b v r₁ (.error (.fault ⟨line, .runtime (.outputFailed Console.full)⟩) m') := by
  obtain ⟨more, hmore⟩ := h.output
  apply Cut.full
  · rw [hmore, ByteArray.size_append]
    omega
  · rw [hmore, extract_append_of_le (Nat.le_of_lt hsize), houtput]

/-- The output of the first one only grows, and the second one, with a limit, is cut off where it does not fit. -/
structure Limits (b : Nat) (u : α → β) (x : Eval α) (y : Eval β) : Prop where
  grows : ∀ ⦃m : Machine⦄, m.console.room = none → m.Grows (after (x m))
  cut : ∀ ⦃m : Machine⦄, m.Free b → Cut b u (x m) (y (m.limit b))

namespace Limits

variable {b : Nat} {u : α → β} {v : γ → δ} {x : Eval α} {y : Eval β}

theorem pure (a : α) : Limits b u (Pure.pure a) (Pure.pure (u a)) where
  grows _ hm := .of_console hm rfl
  cut _ hm := .ok hm

theorem stop {stop : Stop} : Limits b u (throw stop : Eval α) (throw stop) where
  grows _ hm := .of_console hm rfl
  cut _ hm := .error hm

theorem bind {f : α → Eval γ} {g : β → Eval δ} (h : Limits b u x y) (hf : ∀ a, Limits b v (f a) (g (u a))) :
    Limits b v (x >>= f) (y >>= g) where
  grows := by
    intro m hm
    have hx := h.grows hm
    show m.Grows (after (EStateM.bind x f m))
    unfold EStateM.bind
    generalize x m = r at hx ⊢
    cases r with
    | ok a m₁ => exact hx.trans ((hf a).grows hx.room)
    | error stop m₁ => exact hx
  cut := by
    intro m hm
    have hx := h.grows hm.room
    have hcut := h.cut hm
    show Cut b v (EStateM.bind x f m) (EStateM.bind y g (m.limit b))
    unfold EStateM.bind
    generalize x m = r at hx hcut ⊢
    generalize y (m.limit b) = r' at hcut ⊢
    cases hcut with
    | ok hm₁ => exact (hf _).cut hm₁
    | error hm₁ => exact .error hm₁
    | full hsize houtput =>
      cases r with
      | error stop m₁ => exact .full hsize houtput
      -- without a limit the run goes on, but the bytes that count are out
      | ok a m₁ => exact .later hsize houtput ((hf a).grows hx.room)

theorem remember (v : Value) : Limits b id (Eval.remember v) (Eval.remember v) where
  grows _ hm := .of_console hm rfl
  cut _ hm := .ok ⟨hm.room, hm.size⟩

theorem load (line : Nat) (name : String) : Limits b id (Eval.load line name) (Eval.load line name) where
  grows m hm := by
    cases hv : m.get? name with
    | some v =>
      rw [load_some hv]
      exact .of_console hm rfl
    | none =>
      rw [load_none hv]
      exact .of_console hm rfl
  cut m hm := by
    cases hv : m.get? name with
    | some v =>
      have hv' : (m.limit b).get? name = some v := hv
      rw [load_some hv, load_some hv']
      exact .ok hm
    | none =>
      have hv' : (m.limit b).get? name = none := hv
      rw [load_none hv, load_none hv']
      exact .error hm

theorem store (line : Nat) (name : String) (v : Value) :
    Limits b id (Eval.store line name v) (Eval.store line name v) where
  grows m hm := by
    cases hset : m.set? name v with
    | some m₁ =>
      rw [store_some hset]
      exact .of_console hm (Machine.console_set? hset)
    | none =>
      rw [store_none hset]
      exact .of_console hm rfl
  cut m hm := by
    have hset' := m.limit_set? (b := b) name v
    cases hset : m.set? name v with
    | some m₁ =>
      rw [hset] at hset'
      rw [store_some hset, store_some hset']
      have hconsole := Machine.console_set? hset
      exact .ok ⟨by rw [hconsole, hm.room], by rw [hconsole]; exact hm.size⟩
    | none =>
      rw [hset] at hset'
      rw [store_none hset, store_none hset']
      exact .error hm

theorem write (line : Nat) (text : String) : Limits b id (Eval.write line text) (Eval.write line text) where
  grows m hm := by
    have hwrite : m.Grows { m with console := m.console.write text } := by
      simp only [Console.write, hm]
      exact ⟨rfl, text.toUTF8, rfl⟩
    rw [write_apply]
    by_cases hfits : m.console.fits text = true
    · rw [if_pos hfits]
      exact hwrite
    · rw [if_neg hfits]
      exact hwrite
  cut m hm := by
    have hfree : m.console.fits text = true := by simp [Console.fits, hm.room]
    have hsize : text.toUTF8.size = text.utf8ByteSize := String.size_toByteArray
    rw [write_apply, write_apply, if_pos hfree]
    by_cases hfits : (m.limit b).console.fits text = true
    · have hle : text.utf8ByteSize ≤ b - m.console.output.size := by simpa [Machine.limit, Console.fits] using hfits
      rw [if_pos hfits]
      have hlimit : (m.limit b).console.write text =
          (Machine.limit b { m with console := m.console.write text }).console := by
        simp only [Machine.limit, Console.write, hm.room, ByteArray.size_append, hsize, Nat.sub_add_eq]
        rw [extract_of_size_le (Nat.le_trans (Nat.le_of_eq hsize) hle)]
      have hwritten : Machine.Free b { m with console := m.console.write text } := by
        have hm' := hm.size
        simp only [Console.write, hm.room]
        exact ⟨rfl, by rw [ByteArray.size_append]; omega⟩
      rw [hlimit]
      exact .ok hwritten
    · have hlt : b - m.console.output.size < text.utf8ByteSize := by simpa [Machine.limit, Console.fits] using hfits
      rw [if_neg hfits]
      apply Cut.full
      · simp only [after, Console.write, hm.room, ByteArray.size_append, hsize]
        omega
      · simp only [after, Console.write, hm.room, Machine.limit]
        rw [ByteArray.extract_append, extract_of_size_le hm.size, Nat.zero_sub]

theorem readLine (line : Nat) : Limits b id (Eval.readLine line) (Eval.readLine line) where
  grows m hm := by
    rw [readLine_apply]
    unfold Console.next?
    rcases m.console.input with _ | ⟨_ | _, rest⟩
    · exact .of_console hm rfl
    · exact ⟨hm, .empty, ByteArray.append_empty.symm⟩
    · exact ⟨hm, .empty, ByteArray.append_empty.symm⟩
  cut m hm := by
    have hinput : (m.limit b).console.input = m.console.input := rfl
    rw [readLine_apply, readLine_apply]
    unfold Console.next?
    rw [hinput]
    rcases m.console.input with _ | ⟨s | _, rest⟩
    · exact .ok (m := { m with last := .nil }) ⟨hm.room, hm.size⟩
    · let line : Value := .string (Console.withoutBreak s)
      exact .ok (m := { m with console := { m.console with input := rest }, last := line }) ⟨hm.room, hm.size⟩
    · exact .error (m := { m with console := { m.console with input := rest } }) ⟨hm.room, hm.size⟩

theorem within {f : Func} {args : List Value} {x y : Eval Unit} (h : Limits b id x y) :
    Limits b id (Eval.within f args x) (Eval.within f args y) where
  grows m hm := by
    have henter := Machine.Grows.of_console hm (m.console_enter f args)
    have hbody := henter.trans (h.grows henter.room)
    unfold Eval.within
    generalize x (m.enter f args) = r at hbody ⊢
    cases r with
    | ok a m₁ => exact hbody.leave
    | error stop m₁ => exact hbody.leave
  cut m hm := by
    have hconsole := m.console_enter f args
    have hcut := h.cut (m := m.enter f args) ⟨by rw [hconsole, hm.room], by rw [hconsole]; exact hm.size⟩
    unfold Eval.within
    rw [m.limit_enter]
    generalize x (m.enter f args) = r at hcut ⊢
    generalize y ((m.enter f args).limit b) = r' at hcut ⊢
    cases hcut with
    | @ok _ m₁ hm₁ => exact .ok (m := m₁.leave) ⟨hm₁.room, hm₁.size⟩
    | @error _ m₁ hm₁ => exact .error (m := m₁.leave) ⟨hm₁.room, hm₁.size⟩
    | full hsize houtput => cases r with
      | ok a m₁ => exact .full hsize houtput
      | error stop m₁ => exact .full hsize houtput

end Limits

/-- Between a run and the same run with a limit. -/
def limits (b : Nat) : RunRelation where
  mapLine := id
  injective := Function.injective_id
  World := Unit
  Sim _ u x y := Limits b u x y
  pure := Limits.pure
  bind := Limits.bind
  fail _ _ := Limits.stop
  outOfFuel := Limits.stop
  remember v := by
    rw [Value.mapLine_id_eq]
    exact Limits.remember v
  load line name := by
    rw [Value.mapLine_id_eq]
    exact Limits.load line name
  store line name v := by
    rw [Value.mapLine_id]
    exact Limits.store line name v
  write := Limits.write
  readLine line := by
    rw [Value.mapLine_id_eq]
    exact Limits.readLine line
  within {_ f args _ _} h := by
    rw [Func.mapLine_id, Value.mapLine_id_eq, List.map_id]
    exact Limits.within (h ())

end Eval

/-! ## Runs -/

section
variable {b fuel : Nat} {m : Machine}

theorem Machine.Free.exec (h : m.Free b) (fuel : Nat) (body : Block) :
    Eval.Cut b id (m.exec fuel body) ((m.limit b).exec fuel body) := by
  have hlimits : Eval.Limits b id (body.exec (m.caller fuel) fuel) ((body.mapLine id).exec (m.caller fuel) fuel) :=
    Block.related ((Eval.limits b).calls fuel _) body ()
  rw [Block.mapLine_id] at hlimits
  exact hlimits.cut h

/-- A run in new frames whose output fails leaves the machine of the write that failed, without the frames of the
calls that were open. -/
theorem Machine.visits_of_outputFailed {scopes : ScopeTable} {body : Block} {line : Nat} {reason : String}
    {m' : Machine}
    (h : (m.reset scopes).exec fuel body = .error (.fault ⟨line, .runtime (.outputFailed reason)⟩) m') :
    ∃ q text m₁ f, (m.reset scopes).Visits fuel body q ∧ q.Writes fuel line text m₁ ∧
      m₁.console.fits text = false ∧ m₁.frames.getLast? = some f ∧
        m' = { m₁ with console := m₁.console.write text, frames := [f] } := by
  obtain ⟨q, m₂, hvisits, hbreaks, k, rfl⟩ := (stops_of_exec h).visits
  obtain ⟨text, m₁, hwrites, hfits, rfl⟩ := hbreaks.outputFailed
  have hbalanced : (m.reset scopes).Balanced fuel body scopes.program.names :=
    balanced rfl (Frame.binds_ofScope scopes.program) body
  obtain ⟨f, hframes, -⟩ := hbalanced.ended
  rw [h] at hframes
  have hdrop : m₁.frames.drop k = [f] := hframes
  have hlast := congrArg List.getLast? hdrop
  rw [List.getLast?_drop] at hlast
  refine ⟨q, text, m₁, f, hvisits, hwrites, hfits, ?_, by rw [hdrop]⟩
  split at hlast
  · cases hlast
  · exact hlast

end

/-- **Output that fails stops the run at once.** Let a program be run with room for any output and with room for `b`
bytes, from the same input. If what the first run writes is at most `b` bytes, both end in the same way, with the same
output, bindings and remaining input. Otherwise the second run writes the first `b` bytes and ends with a fault. It
has come to a statement whose text does not fit, and the machine it leaves is that of this write, with no frame but
that of the program. -/
theorem Program.full_sink_stops (p : Program) (fuel b : Nat) (input : ByteArray) :
    let start (room : Option Nat) := Machine.start (.start room input)
    let free := Session.outcome ((start none).run fuel p.scopes p.body)
    let full := Session.outcome ((start (some b)).run fuel p.scopes p.body)
    (free.2.console.output.size ≤ b → full = (free.1, free.2.limit b)) ∧
    (b < free.2.console.output.size → full.2.console.output = free.2.console.output.extract 0 b ∧
      ∃ q line text m f, ((start (some b)).reset p.scopes).Visits fuel p.body q ∧ q.Writes fuel line text m ∧
        m.console.fits text = false ∧ m.frames.getLast? = some f ∧
          full = (.error (.fault ⟨line, .runtime (.outputFailed Console.full)⟩),
            { m with console := m.console.write text, frames := [f] })) := by
  intro start free full
  have hfree : ((start none).reset p.scopes).Free b := ⟨rfl, Nat.zero_le b⟩
  have hcut : Eval.Cut b id ((start none).run fuel p.scopes p.body) ((start (some b)).run fuel p.scopes p.body) :=
    hfree.exec fuel p.body
  simp only [free, full]
  generalize hrun : (start (some b)).run fuel p.scopes p.body = r' at hcut ⊢
  generalize (start none).run fuel p.scopes p.body = r at hcut ⊢
  cases hcut with
  | ok hm => exact ⟨fun _ => rfl, fun hlt => absurd hm.size (Nat.not_le_of_lt hlt)⟩
  | error hm => exact ⟨fun _ => rfl, fun hlt => absurd hm.size (Nat.not_le_of_lt hlt)⟩
  | @full _ line m' hsize houtput =>
    have hafter : (Session.outcome r).2 = Eval.after r := by cases r <;> rfl
    rw [hafter]
    refine ⟨fun hle => absurd hsize (Nat.not_lt_of_le hle), fun _ => ⟨houtput, ?_⟩⟩
    obtain ⟨q, text, m₁, f, hvisits, hwrites, hfits, hlast, rfl⟩ := Machine.visits_of_outputFailed hrun
    exact ⟨q, line, text, m₁, f, hvisits, hwrites, hfits, hlast, rfl⟩

/-- A sink of three bytes takes a line of two and a half of the next one. -/
theorem Program.full_sink_stops_halfway :
    ∃ p, ofSource "puts \"a\"\nputs \"b\"" = .ok p ∧
      let full := Session.outcome ((Machine.start (.start (some 3) .empty)).run 0 p.scopes p.body)
      full.1 = .error (.fault ⟨2, .runtime (.outputFailed Console.full)⟩) ∧
        full.2.console.output = "a\nb".toUTF8 := by
  let p : Program := ⟨⟨1, [.puts 1 [.literal 1 (.string "a")], .puts 2 [.literal 2 (.string "b")]]⟩, .initial⟩
  have hp : ofSource "puts \"a\"\nputs \"b\"" = .ok p := by
    have hl : LogicalLine.ofSource "puts \"a\"\nputs \"b\"" =
        .ok [[⟨.kwPuts, "puts", 1⟩, ⟨.string, "a", 1⟩], [⟨.kwPuts, "puts", 2⟩, ⟨.string, "b", 2⟩]] := by
      with_unfolding_all rfl
    exact (ofSource_eq_off hl).trans rfl
  have hfree : (Session.outcome ((Machine.start (.start none .empty)).run 0 p.scopes p.body)).2.console.output =
      "a\nb\n".toUTF8 := by
    rfl
  obtain ⟨-, hfull⟩ := full_sink_stops p 0 3 .empty
  rw [hfree] at hfull
  obtain ⟨houtput, -⟩ := hfull (by decide)
  exact ⟨p, hp, rfl, houtput.trans (by decide)⟩

end Sprig
