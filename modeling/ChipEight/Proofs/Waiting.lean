import ChipEight.Proofs.ControlFlow
import ChipEight.Proofs.Interleaving

/-!
# Waiting for a key

A machine that waits for a key goes on executing the same word.  While no key is
down its steps leave the state as it is, so that nothing passes but the time of the
timers.  The first step that finds a key down takes the lowest one and goes on
behind the word.
-/

namespace ChipEight

namespace Machine

/-- The machine with its state recorded, as it is after a step that changes nothing. -/
def recorded (machine : Machine) : Machine :=
  { machine with history := machine.history.record machine.config.history machine.state }

/-- A machine that is about to execute a word which waits for a key. -/
structure AwaitsKey (machine : Machine) (word : Word) : Prop where
  fetched : machine.state.fetch = .ok word
  family : word.family.val = 0xF
  byte : word.byte = 0x0A

namespace AwaitsKey

variable {machine other : Machine} {word : Word} {call : Call} {calls : List Call}

theorem congr (awaits : machine.AwaitsKey word) (same : other.Matches machine) :
    other.AwaitsKey word :=
  ⟨same.fetch.trans awaits.fetched, awaits.family, awaits.byte⟩

theorem step_of_execute (awaits : machine.AwaitsKey word) {state : State}
    (executed : (Instruction.awaitKey word.x).execute machine.config.dialect machine.random.byte
      machine.state = .ok state) :
    machine.step = ⟨.ok (), { machine.recorded with state }, machine.stepLog word⟩ := by
  have decoded : word.decode = some (.awaitKey word.x) :=
    Word.decode_of_standsFor (.awaitKey awaits.family awaits.byte)
  have undrawn : word.drawsRandom = false := by
    simp only [Word.drawsRandom, decoded]
    rfl
  have wordExecuted : word.execute machine.config.dialect machine.random.byte machine.state =
      .ok state := by
    simpa only [Word.execute, decoded] using executed
  rw [step_of_executed awaits.fetched wordExecuted]
  simp [advance, recorded, undrawn]

theorem step_of_up (awaits : machine.AwaitsKey word)
    (up : ∀ key, machine.state.keypad.isDown key = false) :
    machine.step = ⟨.ok (), machine.recorded, machine.stepLog word⟩ := by
  apply awaits.step_of_execute
  rw [Instruction.execute_awaitKey, Keypad.lowestDown?_of_up up]

theorem step_of_down (awaits : machine.AwaitsKey word) {key : Key}
    (found : machine.state.keypad.lowestDown? = some key) :
    machine.step =
      ⟨.ok (), { machine.recorded with
        state := machine.state.next.setRegister word.x key.toByte }, machine.stepLog word⟩ := by
  apply awaits.step_of_execute
  rw [Instruction.execute_awaitKey, found]

theorem matches_perform (awaits : machine.AwaitsKey word) (plays : call.plays = true)
    (up : call = .step → ∀ key, machine.state.keypad.isDown key = false) :
    (machine.perform call).machine.Matches machine := by
  by_cases steps : call = .step
  · have waits := awaits.step_of_up (up steps)
    subst steps
    rw [perform, waits]
    exact ⟨rfl, rfl, rfl⟩
  · exact machine.matches_perform plays steps

/-- The machine awaits a key all the time while no key is down at a step. -/
theorem matches_exchanges (awaits : machine.AwaitsKey word)
    (plays : ∀ call ∈ calls, call.plays = true)
    (up : ∀ exchange ∈ machine.exchanges calls, exchange.call = .step →
      ∀ key, exchange.before.state.keypad.isDown key = false) :
    (∀ exchange ∈ machine.exchanges calls, exchange.before.Matches machine) ∧
      (machine.performAll calls).Matches machine := by
  induction calls generalizing machine with
  | nil => exact ⟨List.forall_mem_nil _, Matches.refl machine⟩
  | cons call calls ih =>
      obtain ⟨playsCall, playsRest⟩ := List.forall_mem_cons.mp plays
      obtain ⟨upCall, upRest⟩ := List.forall_mem_cons.mp up
      have next := awaits.matches_perform playsCall upCall
      -- A machine that matches fetches the same word, and so awaits a key as well.
      obtain ⟨between, last⟩ := ih (awaits.congr next) playsRest upRest
      constructor
      · intro exchange member
        rcases List.mem_cons.mp member with rfl | later
        · exact Matches.refl machine
        · exact (between exchange later).trans next
      · exact last.trans next

end AwaitsKey

/-- A machine that awaits a key goes on awaiting it, whatever ticks and key writes come, until
a step finds a key down.  That step takes the lowest one and goes on behind the word. -/
theorem waits_until_key_down {machine : Machine} (reachable : machine.Reachable) {word : Word}
    (fetched : machine.state.fetch = .ok word) (family : word.family.val = 0xF)
    (byte : word.byte = 0x0A) {calls : List Call} (plays : ∀ call ∈ calls, call.plays = true)
    (up : ∀ exchange ∈ machine.exchanges calls, exchange.call = .step →
      ∀ key, exchange.before.state.keypad.isDown key = false) :
    let final := machine.performAll calls
    (∀ exchange ∈ machine.exchanges calls, exchange.call = .step →
      exchange.before.state.fetch = .ok word ∧
        exchange.outcome =
          ⟨.stepped (.ok ()), exchange.before.recorded, exchange.before.stepLog word⟩) ∧
    final.state.detached = machine.state.detached ∧
    final.random = machine.random ∧
    final.state.delayTimer.toNat = machine.state.delayTimer.toNat - calls.count .tick ∧
    final.state.soundTimer.toNat = machine.state.soundTimer.toNat - calls.count .tick ∧
    (∀ key, final.state.keypad.isDown key =
      (calls.filterMap (Call.write? key)).getLast?.getD (machine.state.keypad.isDown key)) ∧
    (∀ pressed, final.state.keypad.isDown pressed = true →
      ∃ key : Key, ∃ after : State,
        final.state.keypad.isDown key = true ∧
        (∀ lower < key, final.state.keypad.isDown lower = false) ∧
        final.step = ⟨.ok (), { final.recorded with state := after }, final.stepLog word⟩ ∧
        after = { final.state.setRegister word.x key.toByte with pc := final.state.pc + 2 } ∧
        (after.register word.x).toNat = key.val ∧
        after.pc.toNat = machine.state.pc.toNat + 2 ∧
        after.keypad = final.state.keypad) ∧
    ∀ log, Effect.outcome (Call.inPlaceAll (calls ++ [.step])) ⟨machine, log⟩ =
      (.ok ((machine.outcomes (calls ++ [.step])).map Outcome.value),
        ⟨final.step.machine,
          log ++ (machine.outcomes (calls ++ [.step])).flatMap Outcome.log⟩) := by
  intro final
  have awaits : machine.AwaitsKey word := ⟨fetched, family, byte⟩
  obtain ⟨between, last⟩ := awaits.matches_exchanges plays up
  have stepped : ∀ exchange ∈ machine.exchanges calls, exchange.call = .step →
      exchange.outcome =
        ⟨.stepped (.ok ()), exchange.before.recorded, exchange.before.stepLog word⟩ := by
    intro exchange member steps
    have waits := (awaits.congr (between exchange member)).step_of_up (up exchange member steps)
    rw [Exchange.outcome, steps, perform, waits]
  have steady : machine.Steady calls := by
    intro exchange member steps
    rw [Exchange.after, stepped exchange member steps]
    exact ⟨rfl, rfl, rfl⟩
  obtain ⟨delayed, sounded⟩ := timers_performAll plays steady
  refine ⟨?_, last.state, last.random, delayed, sounded, isDown_performAll plays steady, ?_, ?_⟩
  · intro exchange member steps
    exact ⟨(awaits.congr (between exchange member)).fetched, stepped exchange member steps⟩
  · intro pressed down
    obtain ⟨key, found, held, lowest⟩ := Keypad.exists_lowestDown? down
    have pcEq : final.state.pc = machine.state.pc := by
      simpa only [State.detached] using congrArg State.pc last.state
    refine ⟨key, _, held, lowest, (awaits.congr last).step_of_down found, rfl, ?_, ?_, rfl⟩
    · have named : key.val < 16 := key.isLt
      rw [State.register_setRegister_self, Key.toByte, UInt8.toNat_ofNat']
      omega
    · have inside := State.pc_add_two_le_of_fetch fetched
      rw [← pcEq] at inside ⊢
      exact State.toNat_pc_add inside 2 (by decide)
  · intro log
    have carried := Call.outcome_inPlaceAll (calls ++ [.step]) ⟨machine, log⟩ reachable.bounded
    rw [performAll_append] at carried
    exact carried

/-- A program whose only word awaits a key. -/
def listening : Machine :=
  (new {} (.cycle #[])).performAll [.load #[0xF0, 0x0A]]

/-- It misses a key that goes down and up between two steps, and takes the lower
one of two that are down. -/
theorem waits_until_key_down_listening :
    let calls : List Call := [.step, .tick, .setKey 5 true, .setKey 5 false, .step,
      .setKey 0xA true, .setKey 9 true]
    (∀ exchange ∈ listening.exchanges calls, exchange.call = .step →
        exchange.reply = .stepped (.ok ())) ∧
      ((listening.performAll calls).step.machine.state.register (Word.x 0xF00A)).toNat = 9 := by
  intro calls
  have reachable : listening.Reachable := ⟨_, _, _, rfl⟩
  have first : #[(0xF0 : UInt8), 0x0A][0]? = some 0xF0 := rfl
  have second : #[(0xF0 : UInt8), 0x0A][1]? = some 0x0A := rfl
  have fetched : listening.state.fetch = .ok 0xF00A := State.fetch_boot first second
  have plays : ∀ call ∈ calls, call.plays = true := by decide
  have keypad : listening.state.keypad = .released := rfl
  have released : ∀ key, listening.state.keypad.isDown key = false := Keypad.isDown_released
  have awaits : listening.AwaitsKey 0xF00A := ⟨fetched, by decide, by decide⟩
  have waiting : (listening.perform .step).machine = listening.recorded := by
    rw [perform, awaits.step_of_up released]
  have up : ∀ exchange ∈ listening.exchanges calls, exchange.call = .step →
      ∀ key, exchange.before.state.keypad.isDown key = false := by
    have idle : ∀ (machine : Machine) (call : Call), call ≠ .step → call = .step →
        ∀ key, machine.state.keypad.isDown key = false :=
      fun _ _ other same => absurd same other
    refine List.forall_mem_cons.mpr ⟨fun _ => released, ?_⟩
    rw [waiting]
    refine List.forall_mem_cons.mpr ⟨idle _ _ (by decide), ?_⟩
    refine List.forall_mem_cons.mpr ⟨idle _ _ (by decide), ?_⟩
    refine List.forall_mem_cons.mpr ⟨idle _ _ (by decide), ?_⟩
    refine List.forall_mem_cons.mpr ⟨fun _ => ?_, ?_⟩
    · change ∀ key, ((listening.state.keypad.set 5 true).set 5 false).isDown key = false
      rw [keypad]
      decide
    refine List.forall_mem_cons.mpr ⟨idle _ _ (by decide), ?_⟩
    exact List.forall_mem_cons.mpr ⟨idle _ _ (by decide), List.forall_mem_nil _⟩
  obtain ⟨waits, -, -, -, -, keys, takes, -⟩ :=
    waits_until_key_down reachable fetched (by decide) (by decide) plays up
  constructor
  · intro exchange member steps
    rw [Exchange.reply, (waits exchange member steps).2]
  · have down : (listening.performAll calls).state.keypad.isDown 9 = true := by
      rw [keys, released]
      decide
    obtain ⟨key, after, held, lowest, stepped, -, taken, -⟩ := takes 9 down
    have below : ∀ key < (9 : Key),
        (listening.performAll calls).state.keypad.isDown key = false := by
      intro key lower
      rw [keys, released]
      revert key
      decide
    have keyEq : key = 9 := by
      rcases Nat.lt_trichotomy key.val 9 with lower | same | higher
      · cases held.symm.trans (below key lower)
      · exact Fin.ext same
      · cases down.symm.trans (lowest 9 higher)
    rw [stepped, taken, keyEq]
    rfl

end Machine

end ChipEight
