import ChipEight.Machine.Call

/-!
# What a call can do

`Machine.Performs` lists what every call can answer together with the machine
that it leaves.  A property of all runs then needs one case per line of the
list, and `Machine.invariant_observe` carries it along a run of any length,
also if it relates the machine to something that is recorded about the calls.
-/

namespace ChipEight

namespace Machine

/-- The answers that a call can give, and the machine after each. -/
inductive Performs (machine : Machine) : Call → Reply → Machine → Prop where
  | executed {word : Word} {state : State} :
      machine.state.fetch = .ok word →
      word.execute machine.config.dialect machine.random.byte machine.state = .ok state →
      Performs machine .step (.stepped (.ok ())) (machine.advance word state)
  | faulted {fault : Fault} : machine.step.value = .error fault →
      Performs machine .step (.stepped (.error fault)) machine
  | rewound {newest : State} {older : List State} :
      machine.history.states = newest :: older →
      Performs machine .rewind (.rewound true)
        { machine with state := { newest with redraw := true }, history := ⟨older⟩ }
  | exhausted : machine.history.states = [] →
      Performs machine .rewind (.rewound false) machine
  | ticked : Performs machine .tick .done machine.tick
  | held {byte : UInt8} {key : Key} (down : Bool) : Key.ofByte? byte = some key →
      Performs machine (.setKey byte down) .done (machine.holdKey key down)
  | ignored {byte : UInt8} (down : Bool) : Key.ofByte? byte = none →
      Performs machine (.setKey byte down) .done machine
  | taken : machine.state.redraw = true →
      Performs machine .takeFrame (.frame (some machine.state.frame)) machine.clearRedraw
  | upToDate : machine.state.redraw = false →
      Performs machine .takeFrame (.frame none) machine
  | cleared : Performs machine .clearRedraw .done machine.clearRedraw
  | reset : Performs machine .reset .done machine.reset
  | loaded {program : Array UInt8} : program.size ≤ Memory.programCapacity →
      Performs machine (.load program) (.loaded (.ok program.size)) { machine with program }.reset
  | tooLarge {program : Array UInt8} : Memory.programCapacity < program.size →
      Performs machine (.load program) (.loaded (.error (.oversized program.size))) machine
  | loadedFrom {source : ProgramSource} {program : Array UInt8} :
      program.size ≤ Memory.programCapacity →
      Performs machine (.loadFrom source) (.loaded (.ok program.size))
        { machine with program }.reset
  | refusedFrom {source : ProgramSource} {error : LoadError} :
      Performs machine (.loadFrom source) (.loaded (.error error)) machine

theorem step_of_unfetched {machine : Machine} {fault : Fault}
    (unfetched : machine.state.fetch = .error fault) :
    machine.step = ⟨.error fault, machine, []⟩ := by
  simp only [step, unfetched]

theorem step_of_refused {machine : Machine} {word : Word} {fault : Fault}
    (fetched : machine.state.fetch = .ok word)
    (refused : word.execute machine.config.dialect machine.random.byte machine.state =
      .error fault) :
    machine.step = ⟨.error fault, machine, machine.stepLog word⟩ := by
  simp only [step, fetched, refused]

theorem step_of_executed {machine : Machine} {word : Word} {state : State}
    (fetched : machine.state.fetch = .ok word)
    (executed : word.execute machine.config.dialect machine.random.byte machine.state =
      .ok state) :
    machine.step = ⟨.ok (), machine.advance word state, machine.stepLog word⟩ := by
  simp only [step, fetched, executed]

theorem log_step (machine : Machine) :
    machine.step.log =
      match machine.state.fetch with
      | .ok word => machine.stepLog word
      | .error _ => [] := by
  cases fetched : machine.state.fetch with
  | error fault => rw [step_of_unfetched fetched]
  | ok word =>
      cases executed : word.execute machine.config.dialect machine.random.byte machine.state with
      | error fault => rw [step_of_refused fetched executed]
      | ok state => rw [step_of_executed fetched executed]

/-- A step that succeeds has executed the word that it fetched. -/
theorem exists_of_stepped {machine : Machine} {word : Word}
    (fetched : machine.state.fetch = .ok word) (stepped : machine.step.value = .ok ()) :
    ∃ state, word.execute machine.config.dialect machine.random.byte machine.state = .ok state ∧
      machine.step.machine = machine.advance word state := by
  cases executed : word.execute machine.config.dialect machine.random.byte machine.state with
  | error fault =>
      rw [step_of_refused fetched executed] at stepped
      cases stepped
  | ok state => exact ⟨state, rfl, by rw [step_of_executed fetched executed]⟩

theorem perform_rewind_of_nil {machine : Machine} (past : machine.history.states = []) :
    machine.perform .rewind = ⟨.rewound false, machine, []⟩ := by
  simp only [perform, rewind?, History.undo?, past, Option.map_none]

theorem perform_rewind_of_cons {machine : Machine} {newest : State} {older : List State}
    (past : machine.history.states = newest :: older) :
    machine.perform .rewind = ⟨.rewound true,
      { machine with state := { newest with redraw := true }, history := ⟨older⟩ }, []⟩ := by
  simp only [perform, rewind?, History.undo?, past, Option.map_some]

theorem performs_step (machine : Machine) :
    machine.Performs .step (.stepped machine.step.value) machine.step.machine := by
  cases fetched : machine.state.fetch with
  | error fault =>
      have stepped := step_of_unfetched fetched
      have faulted : machine.step.value = .error fault := by rw [stepped]
      simpa only [stepped] using Performs.faulted faulted
  | ok word =>
      cases executed : word.execute machine.config.dialect machine.random.byte machine.state with
      | error fault =>
          have stepped := step_of_refused fetched executed
          have faulted : machine.step.value = .error fault := by rw [stepped]
          simpa only [stepped] using Performs.faulted faulted
      | ok state =>
          simpa only [step_of_executed fetched executed] using Performs.executed fetched executed

theorem performs_rewind (machine : Machine) :
    machine.Performs .rewind (machine.perform .rewind).value (machine.perform .rewind).machine := by
  cases past : machine.history.states with
  | nil => simpa only [perform_rewind_of_nil past] using Performs.exhausted past
  | cons newest older => simpa only [perform_rewind_of_cons past] using Performs.rewound past

theorem performs_setKey (machine : Machine) (byte : UInt8) (down : Bool) :
    machine.Performs (.setKey byte down) .done (machine.setKey byte down).machine := by
  cases named : Key.ofByte? byte with
  | none => simpa only [setKey, named] using Performs.ignored down named
  | some key => simpa only [setKey, named] using Performs.held down named

theorem performs_takeFrame (machine : Machine) :
    machine.Performs .takeFrame (.frame machine.takeFrame.1) machine.takeFrame.2 := by
  cases pending : machine.state.redraw with
  | false => simpa [takeFrame, pending] using Performs.upToDate pending
  | true => simpa [takeFrame, pending] using Performs.taken pending

theorem performs_load (machine : Machine) (program : Array UInt8) :
    machine.Performs (.load program) (.loaded (machine.load program).value)
      (machine.load program).machine := by
  by_cases tooLarge : Memory.programCapacity < program.size
  · simpa only [load, if_pos tooLarge] using Performs.tooLarge tooLarge
  · simpa only [load, if_neg tooLarge] using Performs.loaded (Nat.le_of_not_lt tooLarge)

theorem performs_loadFrom (machine : Machine) (source : ProgramSource) :
    machine.Performs (.loadFrom source) (.loaded (machine.loadFrom source).value)
      (machine.loadFrom source).machine := by
  cases collected : (source.collect (Memory.programCapacity + 1)).1 with
  | error cause =>
      simpa only [loadFrom, collected] using Performs.refusedFrom
  | ok bytes =>
      by_cases tooLarge : Memory.programCapacity < bytes.toArray.size
      · simpa only [loadFrom, collected, load, if_pos tooLarge] using Performs.refusedFrom
      · simpa only [loadFrom, collected, load, if_neg tooLarge] using
          Performs.loadedFrom (Nat.le_of_not_lt tooLarge)

/-- Every call does one of the listed things. -/
theorem performs_perform (machine : Machine) (call : Call) :
    machine.Performs call (machine.perform call).value (machine.perform call).machine := by
  cases call with
  | step => exact machine.performs_step
  | rewind => exact machine.performs_rewind
  | tick => exact .ticked
  | setKey byte down => exact machine.performs_setKey byte down
  | takeFrame => exact machine.performs_takeFrame
  | clearRedraw => exact .cleared
  | reset => exact .reset
  | load program => exact machine.performs_load program
  | loadFrom source => exact machine.performs_loadFrom source

theorem perform_load_of_fits (machine : Machine) {program : Array UInt8}
    (fits : program.size ≤ Memory.programCapacity) :
    machine.perform (.load program) =
      ⟨.loaded (.ok program.size), { machine with program }.reset,
        [.programLoaded program.size]⟩ := by
  simp only [perform, load, if_neg (Nat.not_lt.mpr fits)]

theorem exists_of_loaded {machine : Machine} {loading : Call} {size : Nat}
    (loaded : (machine.perform loading).value = .loaded (.ok size)) :
    ∃ program : Array UInt8, program.size ≤ Memory.programCapacity ∧ program.size = size ∧
      (machine.perform loading).machine = { machine with program }.reset := by
  have performed := machine.performs_perform loading
  rw [loaded] at performed
  generalize (machine.perform loading).machine = after at performed
  cases performed with
  | @loaded program fits => exact ⟨program, fits, rfl, rfl⟩
  | @loadedFrom source program fits => exact ⟨program, fits, rfl, rfl⟩

/-- Record something about every call of a run, from the machine before it and
its reply. -/
def observe {Record : Type} (note : Record → Machine → Call → Reply → Record) :
    Record → Machine → List Call → Record
  | record, _, [] => record
  | record, machine, call :: calls =>
    observe note (note record machine call (machine.perform call).value)
      (machine.perform call).machine calls

theorem performAll_cons (machine : Machine) (call : Call) (calls : List Call) :
    machine.performAll (call :: calls) = (machine.perform call).machine.performAll calls :=
  rfl

theorem performAll_append (machine : Machine) (calls later : List Call) :
    machine.performAll (calls ++ later) = (machine.performAll calls).performAll later :=
  List.foldl_append

theorem observe_append {Record : Type} (note : Record → Machine → Call → Reply → Record)
    (record : Record) (machine : Machine) (calls later : List Call) :
    observe note record machine (calls ++ later) =
      observe note (observe note record machine calls) (machine.performAll calls) later := by
  induction calls generalizing record machine with
  | nil => rfl
  | cons call calls ih => exact ih _ _

/-- A relation between the machine and a record that every call preserves
holds after every run. -/
theorem invariant_observe {Record : Type} (note : Record → Machine → Call → Reply → Record)
    (Related : Machine → Record → Prop)
    (preserved : ∀ {before : Machine} {call : Call} {reply : Reply} {after : Machine}
      {record : Record}, Related before record → before.Performs call reply after →
        Related after (note record before call reply))
    {machine : Machine} {record : Record} (initially : Related machine record)
    (calls : List Call) :
    Related (machine.performAll calls) (observe note record machine calls) := by
  induction calls generalizing machine record with
  | nil => exact initially
  | cons call calls ih => exact ih (preserved initially (machine.performs_perform call))

/-- A property that every call preserves holds after every run. -/
theorem invariant_performAll (Holds : Machine → Prop)
    (preserved : ∀ {before : Machine} {call : Call} {reply : Reply} {after : Machine},
      Holds before → before.Performs call reply after → Holds after)
    {machine : Machine} (initially : Holds machine) (calls : List Call) :
    Holds (machine.performAll calls) := by
  induction calls generalizing machine with
  | nil => exact initially
  | cons call calls ih => exact ih (preserved initially (machine.performs_perform call))

theorem performAll_load_step (machine : Machine) {program : Array UInt8} {word : Word}
    {state : State} (fits : program.size ≤ Memory.programCapacity)
    (fetched : (State.boot program).fetch = .ok word)
    (executed : word.execute machine.config.dialect machine.random.byte (.boot program) =
      .ok state) :
    machine.performAll [.load program, .step] =
      { machine with program }.reset.advance word state := by
  have refetched : { machine with program }.reset.state.fetch = .ok word := fetched
  have stepped := step_of_executed refetched executed
  rw [performAll_cons, machine.perform_load_of_fits fits, performAll_cons, perform, stepped]
  rfl

theorem config_performAll (machine : Machine) (calls : List Call) :
    (machine.performAll calls).config = machine.config := by
  refine invariant_performAll (fun later => later.config = machine.config) ?_ rfl calls
  intro before call reply after same performed
  cases performed <;> exact same

end Machine

end ChipEight
