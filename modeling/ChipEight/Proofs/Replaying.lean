import ChipEight.Proofs.Bounds
import ChipEight.Proofs.Exchanges
import ChipEight.Proofs.Fetching
import ChipEight.Proofs.Peripherals
import ChipEight.Proofs.Rewinding

/-!
# Replaying what was rewound

A rewound state differs from the one that was recorded in the mark on its
picture alone, and the mark has no influence on any instruction.  So a run that
was rewound, and which drew no random number, can be repeated: the second pass
goes through the states of the first, all of them marked.
-/

namespace ChipEight

/-- The state with its picture marked to be presented again. -/
def State.marked (state : State) : State :=
  { state with redraw := true }

theorem Condition.holds_marked (condition : Condition) (state : State) :
    condition.holds state.marked = condition.holds state := by
  cases condition <;> rfl

/-- No instruction looks at the mark or takes it away. -/
theorem Instruction.execute_marked (instruction : Instruction) (dialect : Dialect) (byte : UInt8)
    (state : State) :
    instruction.execute dialect byte state.marked =
      (instruction.execute dialect byte state).map State.marked := by
  cases device : instruction.usesDevices with
  | false =>
      have keepsMark : Peripherals.KeepsMark Peripherals.mark := fun _ => rfl
      exact execute_adjust keepsMark device dialect byte state
  | true =>
      cases instruction with
      | skip condition =>
          simp only [execute, condition.holds_marked]
          rfl
      | awaitKey x =>
          have keypadEq : state.marked.keypad = state.keypad := rfl
          rw [execute_awaitKey, execute_awaitKey, keypadEq]
          cases state.keypad.lowestDown? <;> rfl
      | loadDelay | setDelay | setSound => rfl
      | _ => cases device

theorem Word.execute_marked (word : Word) (dialect : Dialect) (byte : UInt8) (state : State) :
    word.execute dialect byte state.marked =
      (word.execute dialect byte state).map State.marked := by
  unfold execute
  cases word.decode with
  | none => rfl
  | some instruction => exact instruction.execute_marked dialect byte state

/-- What was dropped once would be dropped again. -/
theorem History.take_append_take (limit : Nat) (newer older : List State) :
    (newer ++ older.take limit).take limit = (newer ++ older).take limit := by
  rw [List.take_append, List.take_append, List.take_take, Nat.min_eq_left (Nat.sub_le _ _)]

/-- Whether a call belongs to playing a program. -/
def Call.plays : Call → Bool
  | .step | .tick | .setKey _ _ => true
  | _ => false

namespace Machine

/-- A machine that goes through the states of another one, all of them
marked. -/
structure Retraces (again first : Machine) : Prop where
  state : again.state = first.state.marked
  config : again.config = first.config
  random : again.random = first.random

namespace Retraces

variable {again first : Machine} {calls : List Call}

theorem step (retraces : again.Retraces first) :
    again.step.value = first.step.value ∧ again.step.machine.Retraces first.step.machine := by
  have fetchEq : again.state.fetch = first.state.fetch := by
    rw [retraces.state]
    rfl
  have executeEq : ∀ word : Word,
      word.execute again.config.dialect again.random.byte again.state =
        (word.execute first.config.dialect first.random.byte first.state).map State.marked := by
    intro word
    rw [retraces.state, retraces.config, retraces.random, word.execute_marked]
  cases fetched : first.state.fetch with
  | error fault =>
      rw [step_of_unfetched fetched, step_of_unfetched (fetchEq.trans fetched)]
      exact ⟨rfl, retraces⟩
  | ok word =>
      have refetched := fetchEq.trans fetched
      cases executed : word.execute first.config.dialect first.random.byte first.state with
      | error fault =>
          have reexecuted := (executeEq word).trans (congrArg _ executed)
          rw [step_of_refused fetched executed, step_of_refused refetched reexecuted]
          exact ⟨rfl, retraces⟩
      | ok state =>
          have reexecuted := (executeEq word).trans (congrArg _ executed)
          rw [step_of_executed fetched executed, step_of_executed refetched reexecuted]
          refine ⟨rfl, rfl, retraces.config, ?_⟩
          simp only [advance, retraces.random]

theorem perform (retraces : again.Retraces first) {call : Call} (plays : call.plays = true) :
    (again.perform call).value = (first.perform call).value ∧
      (again.perform call).machine.Retraces (first.perform call).machine := by
  cases call with
  | step =>
      obtain ⟨valueEq, retraces⟩ := retraces.step
      exact ⟨congrArg Reply.stepped valueEq, retraces⟩
  | tick =>
      refine ⟨rfl, ?_, retraces.config, retraces.random⟩
      show again.state.tick = first.state.tick.marked
      rw [retraces.state]
      rfl
  | setKey byte down =>
      simp only [Machine.perform, setKey]
      cases Key.ofByte? byte with
      | none => exact ⟨trivial, retraces⟩
      | some key =>
          refine ⟨trivial, ?_, retraces.config, retraces.random⟩
          simp only [holdKey, retraces.state]
          rfl
  | _ => cases plays

theorem performAll (retraces : again.Retraces first)
    (plays : ∀ call ∈ calls, call.plays = true) :
    (again.outcomes calls).map Outcome.value = (first.outcomes calls).map Outcome.value ∧
      (again.outcomes calls).map (·.machine.state) =
        (first.outcomes calls).map (·.machine.state.marked) ∧
      (again.performAll calls).Retraces (first.performAll calls) := by
  induction calls generalizing again first with
  | nil => exact ⟨rfl, rfl, retraces⟩
  | cons call calls ih =>
      obtain ⟨valueEq, next⟩ := retraces.perform (plays call List.mem_cons_self)
      obtain ⟨valuesEq, statesEq, last⟩ := ih next fun later member =>
        plays later (List.mem_cons_of_mem _ member)
      refine ⟨?_, ?_, last⟩
      · simp only [outcomes, List.map_cons, valueEq, valuesEq]
      · simp only [outcomes, List.map_cons, next.state, statesEq]

end Retraces

/-- The states before the steps of a run, newest first. -/
def snapshots (machine : Machine) : List Call → List State
  | [] => []
  | call :: calls =>
    (machine.perform call).machine.snapshots calls ++ if call = .step then [machine.state] else []

theorem Retraces.snapshots {again first : Machine} (retraces : again.Retraces first)
    {calls : List Call} (plays : ∀ call ∈ calls, call.plays = true) :
    again.snapshots calls = (first.snapshots calls).map State.marked := by
  induction calls generalizing again first with
  | nil => rfl
  | cons call calls ih =>
      have next := (retraces.perform (plays call List.mem_cons_self)).2
      have rest := ih next fun later member => plays later (List.mem_cons_of_mem _ member)
      simp only [Machine.snapshots, rest, List.map_append]
      split
      · rw [retraces.state, List.map_singleton]
      · rw [List.map_nil]

variable {machine : Machine} {calls : List Call}

theorem length_snapshots (machine : Machine) (calls : List Call) :
    (machine.snapshots calls).length = calls.count .step := by
  induction calls generalizing machine with
  | nil => rfl
  | cons call calls ih =>
      rw [snapshots, List.length_append, ih, List.count_cons]
      by_cases steps : call = .step <;> simp [steps]

theorem states_perform {call : Call} (plays : call.plays = true)
    (succeeds : Exchange.fault? ⟨machine, call⟩ = none)
    (bounded : machine.history.states.length ≤ machine.config.history) :
    (machine.perform call).machine.history.states =
      ((if call = .step then [machine.state] else []) ++ machine.history.states).take
        machine.config.history := by
  have performed := machine.performs_perform call
  simp only [Exchange.fault?, Exchange.reply, Exchange.outcome] at succeeds
  generalize (machine.perform call).value = answer at performed succeeds
  generalize (machine.perform call).machine = after at performed
  cases performed with
  | executed fetched executed => exact History.states_record machine.state bounded
  | faulted refused => cases succeeds
  | ticked | held | ignored => exact (List.take_of_length_le bounded).symm
  | _ => cases plays

/-- A history keeps the newest of the states before the steps. -/
theorem states_performAll (plays : ∀ call ∈ calls, call.plays = true)
    (succeeds : ∀ exchange ∈ machine.exchanges calls, exchange.fault? = none)
    (bounded : machine.history.states.length ≤ machine.config.history) :
    (machine.performAll calls).history.states =
      (machine.snapshots calls ++ machine.history.states).take machine.config.history := by
  induction calls generalizing machine with
  | nil => exact (List.take_of_length_le bounded).symm
  | cons call calls ih =>
      have recorded := states_perform (plays call List.mem_cons_self)
        (succeeds _ List.mem_cons_self) bounded
      have configEq : (machine.perform call).machine.config = machine.config :=
        machine.config_performAll [call]
      have stillBounded : (machine.perform call).machine.history.states.length ≤
          (machine.perform call).machine.config.history := by
        rw [recorded, configEq, List.length_take]
        exact Nat.min_le_left _ _
      refine (ih (fun later member => plays later (List.mem_cons_of_mem _ member))
        (fun exchange member => succeeds exchange (List.mem_cons_of_mem _ member))
        stillBounded).trans ?_
      rw [recorded, configEq, snapshots, List.append_assoc]
      exact History.take_append_take ..

/-- Whether steps fault can be told from the answers. -/
theorem unfaulted_of_values {again first : Machine}
    (valuesEq : (again.outcomes calls).map Outcome.value =
      (first.outcomes calls).map Outcome.value)
    (succeeds : ∀ exchange ∈ first.exchanges calls, exchange.fault? = none) :
    ∀ exchange ∈ again.exchanges calls, exchange.fault? = none := by
  rw [← map_outcome_exchanges, ← map_outcome_exchanges, List.map_map, List.map_map] at valuesEq
  intro exchange member
  have answered : exchange.reply ∈ (first.exchanges calls).map (Outcome.value ∘ Exchange.outcome) :=
    valuesEq ▸ List.mem_map_of_mem member
  obtain ⟨other, otherMember, same⟩ := List.mem_map.mp answered
  have replyEq : exchange.reply = other.reply := same.symm
  rw [Exchange.fault?, replyEq]
  exact succeeds other otherMember

theorem random_performAll
    (undrawn : ∀ exchange ∈ machine.exchanges calls, ∀ word, exchange.executed? = some word →
      word.drawsRandom = false) :
    (machine.performAll calls).random = machine.random := by
  refine invariant_exchanges (fun later => later.random = machine.random) ?_ rfl
  intro exchange member same
  refine (exchange.random_after.trans (if_neg ?_)).trans same
  intro drawn
  obtain ⟨word, executed, draws⟩ := (Option.any_eq_true _ _).mp drawn
  cases (undrawn exchange member word executed).symm.trans draws

/-- Rewinding every step of a run that began with one goes back to where it
began. -/
theorem rewinds_run {rest : List Call} (plays : ∀ call ∈ .step :: rest, call.plays = true)
    (succeeds : ∀ exchange ∈ machine.exchanges (.step :: rest), exchange.fault? = none)
    (bounded : machine.history.states.length ≤ machine.config.history)
    (fits : (Call.step :: rest).count .step ≤ machine.config.history) :
    let steps := (Call.step :: rest).count .step
    let first := machine.performAll (.step :: rest)
    let kept := machine.history.states.take (machine.config.history - steps)
    first.history.states = machine.snapshots (.step :: rest) ++ kept ∧
      first.performAll (List.replicate steps .rewind) =
        { first with state := machine.state.marked, history := ⟨kept⟩ } ∧
      (first.outcomes (List.replicate steps .rewind)).map Outcome.value =
        List.replicate steps (.rewound true) := by
  intro steps first kept
  have length : (machine.snapshots (.step :: rest)).length = steps :=
    machine.length_snapshots (.step :: rest)
  have past : first.history.states = machine.snapshots (.step :: rest) ++ kept := by
    rw [states_performAll plays succeeds bounded, List.take_append, length,
      List.take_of_length_le (by rw [length]; exact fits)]
  let newer := (machine.perform .step).machine.snapshots rest
  have split : machine.snapshots (.step :: rest) = newer ++ [machine.state] := rfl
  have stepsEq : newer.length + 1 = steps := by
    rw [← length, split, List.length_append, List.length_singleton]
  have found : first.history.states = newer ++ machine.state :: kept := by
    rw [past, split, List.append_assoc, List.singleton_append]
  obtain ⟨reached, replies⟩ := rewinds_of_append found
  rw [stepsEq] at reached replies
  exact ⟨past, reached, replies⟩

/-- A run that begins with a step, succeeds, draws no random number and fits into the history
can be rewound to its start, and then gives the same answers and goes through the same
states again. -/
theorem replays_after_rewinding {machine : Machine} (reachable : machine.Reachable)
    {calls : List Call} (begins : calls.head? = some .step)
    (plays : ∀ call ∈ calls, call.plays = true)
    (succeeds : ∀ exchange ∈ machine.exchanges calls, exchange.fault? = none)
    (undrawn : ∀ exchange ∈ machine.exchanges calls, ∀ word, exchange.executed? = some word →
      word.drawsRandom = false)
    (fits : calls.count .step ≤ machine.config.history) :
    let steps := calls.count .step
    let first := machine.performAll calls
    let back := first.performAll (List.replicate steps .rewind)
    let again := back.performAll calls
    (first.outcomes (List.replicate steps .rewind)).map Outcome.value =
        List.replicate steps (.rewound true) ∧
      back.state = machine.state.marked ∧
      (back.outcomes calls).map Outcome.value = (machine.outcomes calls).map Outcome.value ∧
      (back.outcomes calls).map (·.machine.state) =
        (machine.outcomes calls).map (·.machine.state.marked) ∧
      steps ≤ first.history.states.length ∧
      again.history.states =
        (first.history.states.take steps).map State.marked ++ first.history.states.drop steps ∧
      again.step.value = first.step.value := by
  obtain ⟨rest, rfl⟩ : ∃ rest, calls = .step :: rest := by
    cases calls with
    | nil => cases begins
    | cons call rest =>
        cases begins
        exact ⟨rest, rfl⟩
  intro steps first back again
  have bounded := reachable.bounded.history_le
  obtain ⟨past, backEq, replies⟩ := rewinds_run plays succeeds bounded fits
  have retraces : back.Retraces machine := by
    constructor
    · exact congrArg state backEq
    · exact (congrArg config backEq).trans (machine.config_performAll _)
    · exact (congrArg random backEq).trans (random_performAll undrawn)
  obtain ⟨valuesEq, statesEq, last⟩ := retraces.performAll plays
  have length : (machine.snapshots (.step :: rest)).length = steps :=
    machine.length_snapshots (.step :: rest)
  refine ⟨replies, retraces.state, valuesEq, statesEq, ?_, ?_, last.step.1⟩
  · rw [show first.history.states = _ from past, List.length_append, length]
    exact Nat.le_add_right _ _
  · have unfaulted := unfaulted_of_values valuesEq succeeds
    have keptEq : back.history.states =
        machine.history.states.take (machine.config.history - steps) :=
      congrArg (·.history.states) backEq
    have room : back.history.states.length ≤ machine.config.history - steps := by
      rw [keptEq, List.length_take]
      exact Nat.min_le_left _ _
    have recorded := states_performAll plays unfaulted
      (by rw [retraces.config]; exact Nat.le_trans room (Nat.sub_le _ _))
    rw [retraces.config, retraces.snapshots plays,
      List.take_of_length_le (by rw [List.length_append, List.length_map, length]; omega),
      keptEq] at recorded
    rw [show first.history.states = _ from past, List.take_left' length, List.drop_left' length]
    exact recorded

/-- A step that succeeds, and a tick. -/
theorem replayable_of_executed {word : Word} {state : State}
    (fetched : machine.state.fetch = .ok word)
    (executed : word.execute machine.config.dialect machine.random.byte machine.state = .ok state)
    (skips : word.drawsRandom = false) :
    ∀ exchange ∈ machine.exchanges [.step, .tick], exchange.fault? = none ∧
      ∀ drawn, exchange.executed? = some drawn → drawn.drawsRandom = false := by
  intro exchange member
  rcases List.mem_cons.mp member with rfl | member
  · refine ⟨?_, fun drawn found => ?_⟩
    · simp only [Exchange.fault?, Exchange.reply, Exchange.outcome, perform,
        step_of_executed fetched executed]
    · rw [Exchange.executed?_of_executed fetched executed, Option.some.injEq] at found
      rw [← found]
      exact skips
  · obtain rfl := List.mem_singleton.mp member
    exact ⟨rfl, fun drawn found => by cases found⟩

/-- A program whose only word loads a register. -/
def loading : Machine :=
  (new {} (.cycle #[])).performAll [.load #[0x60, 0x07]]

/-- That word is rewound and executed again. -/
theorem replays_after_rewinding_loading :
    let calls : List Call := [.step, .tick]
    let rewinds : List Call := List.replicate (calls.count .step) .rewind
    loading.Reachable ∧ calls.count .step ≤ loading.config.history ∧
      ((loading.performAll calls).performAll rewinds).state = loading.state.marked := by
  intro calls rewinds
  have reachable : loading.Reachable := ⟨_, _, _, rfl⟩
  have first : #[(0x60 : UInt8), 0x07][0]? = some 0x60 := rfl
  have second : #[(0x60 : UInt8), 0x07][1]? = some 0x07 := rfl
  have fetched : loading.state.fetch = .ok 0x6007 := State.fetch_boot first second
  have replayable := replayable_of_executed fetched rfl rfl
  have fits : calls.count .step ≤ loading.config.history := by decide
  have begins : calls.head? = some .step := rfl
  have plays : ∀ call ∈ calls, call.plays = true := by decide
  have known := replays_after_rewinding reachable begins plays
    (fun exchange member => (replayable exchange member).1)
    (fun exchange member => (replayable exchange member).2) fits
  exact ⟨reachable, fits, known.2.1⟩

end Machine

end ChipEight
