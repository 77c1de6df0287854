import ChipEight.Proofs.Exchanges
import ChipEight.Proofs.InPlace.Calls

/-!
# Tracing only observes

Whether a machine traces what it executes decides about its reports and about
nothing else.  Two machines that differ in this setting alone answer every call
alike and stay alike, and the reports of the one are those of the other with the
trace left out.  The trace itself has one notice for every word that is fetched,
in front of all other notices of its step, and it shows the machine as it was
before the word was executed.
-/

namespace ChipEight

namespace Notice

/-- Whether a notice belongs to the trace. -/
def isTrace (notice : Notice) : Bool :=
  notice.level == .trace

/-- Leave the trace out. -/
def untraced (log : List Notice) : List Notice :=
  log.filter fun notice => !notice.isTrace

theorem untraced_append (first second : List Notice) :
    untraced (first ++ second) = untraced first ++ untraced second :=
  List.filter_append ..

theorem untraced_eq_self {log : List Notice} (other : ∀ notice ∈ log, notice.isTrace = false) :
    untraced log = log := by
  apply List.filter_eq_self.mpr
  intro notice member
  rw [other notice member]
  rfl

theorem isTrace_of_mem_untraced {log : List Notice} {notice : Notice}
    (member : notice ∈ untraced log) : notice.isTrace = false := by
  have kept := (List.mem_filter.mp member).2
  rwa [Bool.not_eq_true'] at kept

@[simp]
theorem untraced_untraced (log : List Notice) : untraced (untraced log) = untraced log :=
  untraced_eq_self fun _ => isTrace_of_mem_untraced

end Notice

theorem Effect.isTrace_of_mem_warnings {word : Word} {pc : UInt16} {notice : Notice}
    (member : notice ∈ warnings word pc) : notice.isTrace = false := by
  unfold warnings at member
  split at member
  · rw [List.mem_singleton.mp member]
    rfl
  · cases member

namespace Machine

/-- The machine with its tracing switched on or off. -/
def withTrace (machine : Machine) (trace : Bool) : Machine :=
  { machine with config := { machine.config with trace } }

/-- The trace of a call.  Only a step that fetches a word has one. -/
def traceOf (machine : Machine) (call : Call) : List Notice :=
  match call, machine.state.fetch with
  | .step, .ok word => [machine.state.traceNotice word]
  | _, _ => []

variable {machine : Machine} {call : Call}

theorem untraced_stepLog (machine : Machine) (word : Word) :
    Notice.untraced (machine.stepLog word) = Effect.warnings word machine.state.pc := by
  have warnings : Notice.untraced (Effect.warnings word machine.state.pc) =
      Effect.warnings word machine.state.pc :=
    Notice.untraced_eq_self fun _ => Effect.isTrace_of_mem_warnings
  have log : machine.stepLog word =
      (if machine.config.trace then [machine.state.traceNotice word] else []) ++
        Effect.warnings word machine.state.pc := rfl
  rw [log, Notice.untraced_append, warnings]
  cases machine.config.trace <;> rfl

theorem isTrace_of_mem_load {program : Array UInt8} {notice : Notice}
    (member : notice ∈ (machine.load program).log) : notice.isTrace = false := by
  unfold load at member
  split at member
  · cases member
  · rw [List.mem_singleton.mp member]
    rfl

theorem isTrace_of_mem_log {notice : Notice} (other : call ≠ .step)
    (member : notice ∈ (machine.perform call).log) : notice.isTrace = false := by
  cases call with
  | step => exact absurd rfl other
  | rewind =>
      cases past : machine.history.states with
      | nil =>
          rw [perform_rewind_of_nil past] at member
          cases member
      | cons newest older =>
          rw [perform_rewind_of_cons past] at member
          cases member
  | setKey byte down =>
      have reported : notice ∈ (machine.setKey byte down).log := member
      unfold setKey at reported
      split at reported
      · cases reported
      · rw [List.mem_singleton.mp reported]
        rfl
  | load program =>
      have reported : notice ∈ (machine.load program).log := member
      exact isTrace_of_mem_load reported
  | loadFrom source =>
      have reported : notice ∈ (machine.loadFrom source).log := member
      unfold loadFrom at reported
      split at reported
      · exact isTrace_of_mem_load reported
      · cases reported
  | _ => cases member

theorem load_withTrace (machine : Machine) (trace : Bool) (program : Array UInt8) :
    (machine.withTrace trace).load program =
      ⟨(machine.load program).value, (machine.load program).machine.withTrace trace,
        (machine.load program).log⟩ := by
  unfold load
  split <;> rfl

theorem perform_withTrace_of_ne (machine : Machine) (trace : Bool) (other : call ≠ .step) :
    (machine.withTrace trace).perform call =
      ⟨(machine.perform call).value, (machine.perform call).machine.withTrace trace,
        (machine.perform call).log⟩ := by
  cases call with
  | step => exact absurd rfl other
  | rewind =>
      cases past : machine.history.states with
      | nil =>
          have samePast : (machine.withTrace trace).history.states = [] := past
          rw [perform_rewind_of_nil samePast, perform_rewind_of_nil past]
      | cons newest older =>
          have samePast : (machine.withTrace trace).history.states = newest :: older := past
          rw [perform_rewind_of_cons samePast, perform_rewind_of_cons past]
          rfl
  | setKey byte down =>
      simp only [perform, setKey]
      cases Key.ofByte? byte <;> rfl
  | takeFrame =>
      have sameState : (machine.withTrace trace).state = machine.state := rfl
      simp only [perform, takeFrame, sameState]
      cases machine.state.redraw <;> rfl
  | load program => simp only [perform, load_withTrace]
  | loadFrom source =>
      simp only [perform, loadFrom]
      cases (source.collect (Memory.programCapacity + 1)).1 with
      | ok bytes => simp only [load_withTrace]
      | error cause => rfl
  | _ => rfl

theorem step_withTrace (machine : Machine) (trace : Bool) :
    (machine.withTrace trace).step =
      ⟨machine.step.value, machine.step.machine.withTrace trace,
        (if trace then machine.traceOf .step else []) ++ Notice.untraced machine.step.log⟩ := by
  have sameFetch : (machine.withTrace trace).state.fetch = machine.state.fetch := rfl
  unfold traceOf
  cases fetched : machine.state.fetch with
  | error fault =>
      rw [step_of_unfetched fetched, step_of_unfetched (sameFetch.trans fetched)]
      cases trace <;> rfl
  | ok word =>
      have refetched := sameFetch.trans fetched
      cases executed : word.execute machine.config.dialect machine.random.byte machine.state with
      | error fault =>
          rw [step_of_refused fetched executed, step_of_refused refetched executed,
            untraced_stepLog]
          rfl
      | ok state =>
          rw [step_of_executed fetched executed, step_of_executed refetched executed,
            untraced_stepLog]
          rfl

/-- Tracing puts the trace of a call in front of its other reports and changes
nothing else. -/
theorem perform_withTrace (machine : Machine) (trace : Bool) (call : Call) :
    (machine.withTrace trace).perform call =
      ⟨(machine.perform call).value, (machine.perform call).machine.withTrace trace,
        (if trace then machine.traceOf call else []) ++
          Notice.untraced (machine.perform call).log⟩ := by
  by_cases steps : call = .step
  · subst steps
    simp only [perform, step_withTrace]
  · have nothing : machine.traceOf call = [] := by
      cases call <;> first | rfl | exact absurd rfl steps
    rw [perform_withTrace_of_ne machine trace steps, nothing, ite_self, List.nil_append,
      Notice.untraced_eq_self fun _ => isTrace_of_mem_log steps]

end Machine

/-- What is left of an outcome without tracing. -/
def Outcome.untraced {α : Type} (outcome : Outcome α) : Outcome α where
  value := outcome.value
  machine := outcome.machine.withTrace false
  log := Notice.untraced outcome.log

namespace Machine

theorem untraced_traceOf (machine : Machine) (call : Call) :
    Notice.untraced (machine.traceOf call) = [] := by
  unfold traceOf
  split <;> rfl

theorem untraced_perform (machine : Machine) (call : Call) :
    ((machine.withTrace true).perform call).untraced = (machine.withTrace false).perform call := by
  simp only [perform_withTrace, Outcome.untraced, if_true, Notice.untraced_append,
    untraced_traceOf, Notice.untraced_untraced, List.nil_append]
  rfl

/-- Without its trace, a run that is traced is the run that is not. -/
theorem map_untraced_outcomes (machine : Machine) (calls : List Call) :
    ((machine.withTrace true).outcomes calls).map Outcome.untraced =
      (machine.withTrace false).outcomes calls := by
  induction calls generalizing machine with
  | nil => rfl
  | cons call calls ih =>
      have after : ∀ trace, ((machine.withTrace trace).perform call).machine =
          (machine.perform call).machine.withTrace trace := by
        intro trace
        rw [perform_withTrace]
      simp only [outcomes, List.map_cons, untraced_perform, after, ih]

theorem performAll_withTrace (machine : Machine) (trace : Bool) (calls : List Call) :
    (machine.withTrace trace).performAll calls = (machine.performAll calls).withTrace trace := by
  induction calls generalizing machine with
  | nil => rfl
  | cons call calls ih =>
      have after : ((machine.withTrace trace).perform call).machine =
          (machine.perform call).machine.withTrace trace := by
        rw [perform_withTrace]
      simp only [performAll, List.foldl_cons, after]
      exact ih _

theorem log_of_mem_exchanges {machine : Machine} {calls : List Call} {exchange : Exchange}
    (member : exchange ∈ (machine.withTrace true).exchanges calls) :
    ∃ others, (∀ notice ∈ others, notice.isTrace = false) ∧
      exchange.outcome.log = exchange.before.traceOf exchange.call ++ others := by
  obtain ⟨done, rest, -, beforeEq⟩ := exists_of_mem_exchanges member
  rw [performAll_withTrace] at beforeEq
  refine ⟨Notice.untraced ((machine.performAll done).perform exchange.call).log, ?_, ?_⟩
  · exact fun _ => Notice.isTrace_of_mem_untraced
  · rw [Exchange.outcome, beforeEq, perform_withTrace]
    rfl

theorem flatMap_untraced (outcomes : List (Outcome Reply)) :
    Notice.untraced (outcomes.flatMap Outcome.log) =
      (outcomes.map Outcome.untraced).flatMap Outcome.log := by
  induction outcomes with
  | nil => rfl
  | cons outcome outcomes ih =>
      rw [List.flatMap_cons, List.map_cons, List.flatMap_cons, Notice.untraced_append, ih]
      rfl

/-- Tracing makes no difference to a run, in place as well, except that every step that fetches
a word reports first the machine before the word is executed. -/
theorem tracing_only_observes (config : Config) (random : RandomSource) (calls : List Call) :
    let traced := new { config with trace := true } random
    let plain := new { config with trace := false } random
    let tracedRun := Effect.outcome (Call.inPlaceAll calls) ⟨traced, []⟩
    let plainRun := Effect.outcome (Call.inPlaceAll calls) ⟨plain, []⟩
    (traced.outcomes calls).map Outcome.value = (plain.outcomes calls).map Outcome.value ∧
      (traced.outcomes calls).map (·.machine.withTrace false) =
        (plain.outcomes calls).map Outcome.machine ∧
      (traced.outcomes calls).map (Notice.untraced ·.log) =
        (plain.outcomes calls).map Outcome.log ∧
      (∀ exchange ∈ traced.exchanges calls,
        ∃ others, (∀ notice ∈ others, notice.isTrace = false) ∧
          exchange.outcome.log =
            match exchange.call, exchange.before.state.fetch with
            | .step, .ok word =>
              .executing exchange.before.state.pc word exchange.before.state.registers
                exchange.before.state.index exchange.before.state.stack.depth :: others
            | _, _ => others) ∧
      tracedRun.1 = plainRun.1 ∧
      tracedRun.2.machine.withTrace false = plainRun.2.machine ∧
      tracedRun.2.log = (traced.outcomes calls).flatMap Outcome.log ∧
      Notice.untraced tracedRun.2.log = plainRun.2.log := by
  intro traced plain tracedRun plainRun
  have untraced : (traced.outcomes calls).map Outcome.untraced = plain.outcomes calls :=
    map_untraced_outcomes (new config random) calls
  have values := congrArg (List.map Outcome.value) untraced
  have machines := congrArg (List.map Outcome.machine) untraced
  have logs := congrArg (List.map Outcome.log) untraced
  simp only [List.map_map] at values machines logs
  have tracedInPlace : tracedRun = _ :=
    Call.outcome_inPlaceAll calls ⟨traced, []⟩ (bounded_new _ _)
  have plainInPlace : plainRun = _ :=
    Call.outcome_inPlaceAll calls ⟨plain, []⟩ (bounded_new _ _)
  refine ⟨values, machines, logs, ?_, ?_, ?_, ?_, ?_⟩
  · intro exchange member
    have memberTraced : exchange ∈ ((new config random).withTrace true).exchanges calls := member
    obtain ⟨others, untracedOthers, logEq⟩ := log_of_mem_exchanges memberTraced
    refine ⟨others, untracedOthers, logEq.trans ?_⟩
    cases exchange.call with
    | step =>
        unfold traceOf
        cases exchange.before.state.fetch <;> rfl
    | _ => rfl
  · rw [tracedInPlace, plainInPlace]
    exact congrArg Except.ok values
  · rw [tracedInPlace, plainInPlace]
    have after := performAll_withTrace (new config random)
    show (traced.performAll calls).withTrace false = plain.performAll calls
    rw [show traced.performAll calls = _ from after true calls,
      show plain.performAll calls = _ from after false calls]
    rfl
  · rw [tracedInPlace]
    rfl
  · rw [tracedInPlace, plainInPlace]
    show Notice.untraced ((traced.outcomes calls).flatMap Outcome.log) =
      (plain.outcomes calls).flatMap Outcome.log
    rw [flatMap_untraced, untraced]

/-- A word that stands for no instruction is traced before the warning. -/
theorem tracing_only_observes_unknown :
    let traced := new { trace := true } (.cycle #[])
    let exchange : Exchange := ⟨traced.performAll [.load #[0xFF, 0xFF]], .step⟩
    exchange ∈ traced.exchanges [.load #[0xFF, 0xFF], .step] ∧
      ∃ others, (∀ notice ∈ others, notice.isTrace = false) ∧
        exchange.outcome.log =
          .executing 0x200 0xFFFF (Vector.replicate 16 0) 0 0 :: others := by
  intro traced exchange
  have member : exchange ∈ traced.exchanges [.load #[0xFF, 0xFF], .step] :=
    List.mem_cons_of_mem _ List.mem_cons_self
  have first : #[(0xFF : UInt8), 0xFF][0]? = some 0xFF := rfl
  have second : #[(0xFF : UInt8), 0xFF][1]? = some 0xFF := rfl
  have fetched : exchange.before.state.fetch = .ok 0xFFFF := State.fetch_boot first second
  obtain ⟨-, -, -, traces, -⟩ :=
    tracing_only_observes {} (.cycle #[]) [.load #[0xFF, 0xFF], .step]
  obtain ⟨others, untracedOthers, logEq⟩ := traces exchange member
  rw [fetched] at logEq
  exact ⟨member, others, untracedOthers, logEq⟩

end Machine

end ChipEight
