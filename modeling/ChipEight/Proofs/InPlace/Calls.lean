import ChipEight.Proofs.Bounds
import ChipEight.Proofs.InPlace.Agreement

/-!
# Calls in place

Every call on a machine as the effects that carry it out.  A step moves the
program counter before it executes a word and puts it back if the word is
refused; a program is loaded by copying it into memory that was cleared before.
On a machine within its bounds no call crashes, and every call leaves what
`Machine.perform` says.
-/

namespace ChipEight

namespace Effect

def fetch : Effect Word := do
  let pc := (← state).pc
  if Memory.size ≤ pc.toNat + 1 then
    refuse (.memoryOutOfBounds pc (if pc.toNat < Memory.size then pc.toNat + 1 else pc.toNat))
  else do
    let high ← readCell pc.toNat
    let low ← readCell (pc.toNat + 1)
    return high.toUInt16 <<< 8 ||| low.toUInt16

def restoring (pc : UInt16) (effect : Effect Unit) : Effect Unit :=
  tryCatch effect fun
    | .refused fault => do
      setCounter pc
      refuse fault
    | .crashed => crash

def execute (word : Word) : Effect Unit := do
  let pc := (← state).pc
  setCounter (← addAddress pc 2)
  match word.decode with
  | some instruction => restoring pc (instruction.inPlace (← machine).config.dialect)
  | none => report (.unknownWord word pc)

def reportIf (condition : Bool) (notice : Notice) : Effect Unit :=
  if condition then report notice else pure ()

def record (state : State) : Effect Unit :=
  updateMachine fun machine =>
    { machine with history := machine.history.record machine.config.history state }

def recordIf (condition : Bool) (state : State) : Effect Unit :=
  if condition then record state else pure ()

def step : Effect Unit := do
  let word ← fetch
  let before ← machine
  reportIf before.config.trace (before.state.traceNotice word)
  execute word
  recordIf (0 < before.config.history) before.state

def rewind : Effect Bool := do
  match (← machine).history.undo? with
  | some (state, history) => do
    updateMachine fun machine => { machine with state, history }
    update fun state => { state with redraw := true }
    return true
  | none => return false

def tick : Effect Unit := do
  update fun state => { state with delayTimer := UInt8.ofNat (state.delayTimer.toNat - 1) }
  update fun state => { state with soundTimer := UInt8.ofNat (state.soundTimer.toNat - 1) }

def setKey (byte : UInt8) (down : Bool) : Effect Unit := do
  match Key.ofByte? byte with
  | some key => update fun state => { state with keypad := state.keypad.set key down }
  | none => report (.ignoredKey byte)

def clearRedraw : Effect Unit :=
  update fun state => { state with redraw := false }

def takeFrame : Effect (Option Frame) := do
  if (← state).redraw then do
    clearRedraw
    return some (← state).frame
  else
    return none

def reset : Effect Unit := do
  let program := (← machine).program
  update fun _ => .initial
  writeBlock Memory.programStart (Memory.programStart + program.size) program.toList
  updateMachine fun machine => { machine with history := .empty }

def load (program : Array UInt8) : Effect (Except LoadError Nat) := do
  if Memory.programCapacity < program.size then
    return .error (.oversized program.size)
  else do
    updateMachine fun machine => { machine with program }
    reset
    report (.programLoaded program.size)
    return .ok program.size

def loadFrom (source : ProgramSource) : Effect (Except LoadError Nat) :=
  match (source.collect (Memory.programCapacity + 1)).1 with
  | .ok bytes => load bytes.toArray
  | .error cause => pure (.error (.unreadable cause))

/-- The occupied slots of the call stack, as a slice of all slots. -/
def callStack : Effect (List UInt16) := do
  let stack := (← state).stack
  demand (stack.depth ≤ CallStack.capacity)
  return stack.slots.toList.take stack.depth

end Effect

open Effect in
def Call.inPlace : Call → Effect Reply
  | step => do
    return .stepped (← attempt Effect.step)
  | rewind => do
    return .rewound (← Effect.rewind)
  | tick => do
    Effect.tick
    return .done
  | setKey byte down => do
    Effect.setKey byte down
    return .done
  | takeFrame => do
    return .frame (← Effect.takeFrame)
  | clearRedraw => do
    Effect.clearRedraw
    return .done
  | reset => do
    Effect.reset
    return .done
  | load program => do
    return .loaded (← Effect.load program)
  | loadFrom source => do
    return .loaded (← Effect.loadFrom source)

/-- Carry out calls in order, all on the one machine. -/
def Call.inPlaceAll : List Call → Effect (List Reply)
  | [] => pure []
  | call :: calls => do
    let reply ← call.inPlace
    let replies ← Call.inPlaceAll calls
    return reply :: replies

namespace Effect

variable (bench : Bench)

theorem outcome_fetch_of_ok {word : Word} (fetched : bench.machine.state.fetch = .ok word) :
    outcome fetch bench = (.ok word, bench) := by
  have inside := State.pc_add_two_le_of_fetch fetched
  have accepted : ¬Memory.size ≤ bench.machine.state.pc.toNat + 1 := by omega
  obtain ⟨high, low, highFound, lowFound, wordEq⟩ := State.cells_of_fetch fetched
  simp [fetch, accepted, readCell, highFound, lowFound, ← wordEq, Word.ofBytes]

theorem outcome_fetch_of_error {fault : Fault}
    (refused : bench.machine.state.fetch = .error fault) :
    outcome fetch bench = (.error (.refused fault), bench) := by
  by_cases inside : bench.machine.state.pc.toNat + 2 ≤ Memory.size
  · obtain ⟨bytes, -, accepted⟩ := bench.machine.state.read_of_inside (Or.inr inside)
    simp only [State.fetch, accepted] at refused
    cases refused
  · have outside : Memory.size ≤ bench.machine.state.pc.toNat + 1 := by omega
    have firstOutside : (if bench.machine.state.pc.toNat < Memory.size then
        bench.machine.state.pc.toNat + 1 else bench.machine.state.pc.toNat) =
          Memory.firstOutside bench.machine.state.pc.toNat := by
      unfold Memory.firstOutside
      split <;> omega
    have faultEq := (State.fetch_of_outside inside).symm.trans refused
    cases faultEq
    simp [fetch, outside, firstOutside]

def warnings (word : Word) (pc : UInt16) : List Notice :=
  if word.decode.isNone then [.unknownWord word pc] else []

theorem outcome_execute (word : Word)
    (inside : bench.machine.state.pc.toNat + 2 ≤ Memory.size)
    (depth_le : bench.machine.state.stack.depth ≤ CallStack.capacity) :
    outcome (execute word) bench =
      match word.execute bench.machine.config.dialect bench.machine.random.byte
          bench.machine.state with
      | .ok state =>
          (.ok (), { bench.advance word.drawsRandom state with
            log := bench.log ++ warnings word bench.machine.state.pc })
      | .error fault => (.error (.refused fault), bench) := by
  have fits : bench.machine.state.pc.toNat + (2 : UInt16).toNat < UInt16.size := by
    simp only [Memory.size, UInt16.reduceToNat, UInt16.size] at inside ⊢
    omega
  have moved : bench.withState { bench.machine.state with pc := bench.machine.state.pc + 2 } =
      bench.withState bench.machine.state.next := rfl
  cases decoded : word.decode with
  | none =>
      simp [execute, Word.execute, Word.drawsRandom, warnings, decoded,
        outcome_addAddress _ fits, moved]
  | some instruction =>
      have carried := Instruction.agrees bench.machine.config.dialect instruction bench
        inside depth_le
      unfold Instruction.Agrees at carried
      simp only [execute, outcome_bind, outcome_state, outcome_addAddress _ fits,
        outcome_setCounter, decoded, outcome_machine, restoring, outcome_tryCatch, moved,
        Bench.config_withState, carried, Word.execute]
      cases instruction.execute bench.machine.config.dialect bench.machine.random.byte
          bench.machine.state with
      | ok state => simp [Bench.advance, Word.drawsRandom, warnings, decoded]
      | error fault => simp

theorem isNone_decode_of_execute_error {word : Word} {dialect : Dialect} {byte : UInt8}
    {state : State} {fault : Fault} (refused : word.execute dialect byte state = .error fault) :
    word.decode.isNone = false := by
  cases decoded : word.decode with
  | none =>
      simp only [Word.execute, decoded] at refused
      cases refused
  | some instruction => rfl

@[simp]
theorem outcome_reportIf (condition : Bool) (notice : Notice) :
    outcome (reportIf condition notice) bench =
      (.ok (), { bench with log := bench.log ++ if condition then [notice] else [] }) := by
  cases condition <;> simp [reportIf]

theorem outcome_recordIf {limit : Nat} (sameLimit : bench.machine.config.history = limit)
    (state : State) :
    outcome (recordIf (0 < limit) state) bench =
      (.ok (), ⟨{ bench.machine with
        history := bench.machine.history.record limit state }, bench.log⟩) := by
  subst limit
  by_cases room : 0 < bench.machine.config.history
  · simp [recordIf, room, record]
  · have noRoom : bench.machine.config.history = 0 := by omega
    simp [recordIf, noRoom, History.record]

theorem outcome_step (bounded : bench.machine.Bounded) :
    outcome step bench =
      match bench.machine.step with
      | ⟨.ok (), machine, log⟩ => (.ok (), ⟨machine, bench.log ++ log⟩)
      | ⟨.error fault, machine, log⟩ => (.error (.refused fault), ⟨machine, bench.log ++ log⟩) := by
  cases fetched : bench.machine.state.fetch with
  | error fault => simp [step, Machine.step, fetched, outcome_fetch_of_error bench fetched]
  | ok word =>
      let traced : Bench := { bench with
        log := bench.log ++
          if bench.machine.config.trace then [bench.machine.state.traceNotice word] else [] }
      have inside := State.pc_add_two_le_of_fetch fetched
      have executed := outcome_execute traced word inside bounded.state.depth_le
      simp only [step, Machine.step, fetched, outcome_bind, outcome_fetch_of_ok bench fetched,
        outcome_machine, outcome_reportIf, executed, traced]
      cases result : word.execute bench.machine.config.dialect bench.machine.random.byte
          bench.machine.state with
      | error fault =>
          have noWarning : word.decode.isNone = false := isNone_decode_of_execute_error result
          simp [Machine.stepLog, noWarning]
      | ok state =>
          dsimp only
          rw [outcome_recordIf]
          · simp [Machine.stepLog, warnings, Machine.advance, Bench.advance]
          · rfl

theorem outcome_step_of_ok {machine : Machine} (bounded : machine.Bounded)
    (stepped : machine.step.value = .ok ()) (log : List Notice) :
    outcome step ⟨machine, log⟩ = (.ok (), ⟨machine.step.machine, log ++ machine.step.log⟩) := by
  rw [outcome_step ⟨machine, log⟩ bounded]
  revert stepped
  rcases machine.step with ⟨fault | ⟨⟩, after, notices⟩
  · rintro ⟨⟩
  · exact fun _ => rfl

theorem outcome_reset (fits : bench.machine.program.size ≤ Memory.programCapacity) :
    outcome reset bench = (.ok (), { bench with machine := bench.machine.reset }) := by
  have inside : Memory.programStart + bench.machine.program.toList.length ≤ Memory.size := by
    simp only [Array.length_toList, Memory.programCapacity, Memory.programStart,
      Memory.size] at fits ⊢
    omega
  have copied := outcome_writeBlock (bench.withState .initial) inside (Memory.write?_image fits)
  rw [Array.length_toList] at copied
  simp only [reset, outcome_bind, outcome_machine, outcome_update, copied, outcome_updateMachine]
  rfl

theorem outcome_load (program : Array UInt8) :
    outcome (load program) bench =
      (.ok (bench.machine.load program).value,
        ⟨(bench.machine.load program).machine,
          bench.log ++ (bench.machine.load program).log⟩) := by
  by_cases tooLarge : Memory.programCapacity < program.size
  · simp [load, Machine.load, tooLarge]
  · have restarted := outcome_reset
      { bench with machine := { bench.machine with program } } (Nat.le_of_not_lt tooLarge)
    simp only [load, if_neg tooLarge, outcome_bind, outcome_updateMachine, restarted,
      outcome_report, outcome_pure, Machine.load]

theorem outcome_loadFrom (source : ProgramSource) :
    outcome (loadFrom source) bench =
      (.ok (bench.machine.loadFrom source).value,
        ⟨(bench.machine.loadFrom source).machine,
          bench.log ++ (bench.machine.loadFrom source).log⟩) := by
  cases collected : (source.collect (Memory.programCapacity + 1)).1 with
  | ok bytes => simp only [loadFrom, Machine.loadFrom, collected, outcome_load]
  | error cause =>
      simp only [loadFrom, Machine.loadFrom, collected, outcome_pure, List.append_nil]

theorem outcome_callStack (bounded : bench.machine.Bounded) :
    outcome callStack bench = (.ok bench.machine.state.stack.toList, bench) := by
  simp [callStack, outcome_demand bounded.state.depth_le, CallStack.toList]

end Effect

open Effect in
/-- On a machine within its bounds no call crashes, and every call leaves what
it leaves as a whole. -/
theorem Call.outcome_inPlace (call : Call) (bench : Bench) (bounded : bench.machine.Bounded) :
    outcome call.inPlace bench =
      (.ok (bench.machine.perform call).value,
        ⟨(bench.machine.perform call).machine,
          bench.log ++ (bench.machine.perform call).log⟩) := by
  cases call with
  | step =>
      simp only [inPlace, Machine.perform, attempt, outcome_bind, outcome_tryCatch,
        outcome_step bench bounded]
      rcases bench.machine.step with ⟨fault | ⟨⟩, machine, log⟩ <;> simp
  | rewind =>
      simp only [inPlace, Machine.perform, Effect.rewind, Machine.rewind?]
      cases past : bench.machine.history.undo? with
      | none => simp [past]
      | some newest =>
          simp [past, Bench.withState]
  | tick =>
      simp [inPlace, Machine.perform, Effect.tick, Machine.tick, State.tick, Bench.withState]
  | setKey byte down =>
      simp only [inPlace, Machine.perform, Effect.setKey, Machine.setKey]
      cases Key.ofByte? byte with
      | none => simp
      | some key =>
          simp [Machine.holdKey, Bench.withState]
  | takeFrame =>
      cases pending : bench.machine.state.redraw with
      | false => simp [inPlace, Machine.perform, Effect.takeFrame, Machine.takeFrame, pending]
      | true =>
          simp [inPlace, Machine.perform, Effect.takeFrame, Machine.takeFrame, pending,
            Effect.clearRedraw, Machine.clearRedraw, Bench.withState]
  | clearRedraw =>
      simp [inPlace, Machine.perform, Effect.clearRedraw, Machine.clearRedraw, Bench.withState]
  | reset =>
      simp [inPlace, Machine.perform, outcome_reset bench bounded.program_le]
  | load program => simp [inPlace, Machine.perform, outcome_load bench program]
  | loadFrom source => simp [inPlace, Machine.perform, outcome_loadFrom bench source]

open Effect in
/-- A run that is carried out in place, from a machine within its bounds, does
not crash, and it leaves what the calls leave as a whole. -/
theorem Call.outcome_inPlaceAll (calls : List Call) (bench : Bench)
    (bounded : bench.machine.Bounded) :
    outcome (Call.inPlaceAll calls) bench =
      (.ok ((bench.machine.outcomes calls).map Outcome.value),
        ⟨bench.machine.performAll calls,
          bench.log ++ (bench.machine.outcomes calls).flatMap Outcome.log⟩) := by
  induction calls generalizing bench with
  | nil => simp [inPlaceAll, Machine.outcomes, Machine.performAll]
  | cons call calls ih =>
      have performed := bounded.performs (bench.machine.performs_perform call)
      simp only [inPlaceAll, outcome_bind, Call.outcome_inPlace call bench bounded,
        ih ⟨_, _⟩ performed, outcome_pure, Machine.outcomes, Machine.performAll, List.map_cons,
        List.flatMap_cons, List.foldl_cons, List.append_assoc]

end ChipEight
