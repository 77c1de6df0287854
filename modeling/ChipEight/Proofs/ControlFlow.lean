import ChipEight.Proofs.Decoding
import ChipEight.Proofs.InPlace.Calls

/-!
# Where execution goes on

A word that neither jumps nor skips nor waits is followed by the next one.  For
the others, the digits of the word tell where execution goes on, together with
the registers, the keys and the call stack before the step.
-/

namespace ChipEight

namespace State

/-- Whether one of the keys that are down is the one that a byte names. -/
def presses (state : State) (byte : UInt8) : Bool :=
  state.keypad.downKeys.any fun key => key.val == byte.toNat

theorem presses_eq (state : State) (byte : UInt8) :
    state.presses byte = state.keypad.isByteDown byte := by
  rw [Bool.eq_iff_iff, presses, List.any_eq_true, Keypad.isByteDown, Key.ofByte?]
  constructor
  · rintro ⟨key, member, named⟩
    have held : state.keypad.isDown key = true := (List.mem_filter.mp member).2
    have byteEq : key.val = byte.toNat := eq_of_beq named
    rw [dif_pos (byteEq ▸ key.isLt)]
    simpa only [Option.any_some, ← byteEq] using held
  · intro held
    split at held
    · rename_i named
      exact ⟨_, List.mem_filter.mpr ⟨List.mem_finRange _, held⟩, beq_self_eq_true _⟩
    · cases held

/-- A byte that names no key counts as a key that is up. -/
theorem presses_eq_false (state : State) {byte : UInt8} (nameless : 0xF < byte.toNat) :
    state.presses byte = false := by
  have unnamed : ¬byte.toNat < Keypad.keyCount := Nat.not_lt.mpr nameless
  rw [presses_eq, Keypad.isByteDown, Key.ofByte?, dif_neg unnamed, Option.any_none]

/-- No skip wraps around. -/
theorem toNat_pc_add {state : State} (inside : state.pc.toNat + 2 ≤ Memory.size)
    (distance : UInt16) (near : distance.toNat ≤ 4) :
    (state.pc + distance).toNat = state.pc.toNat + distance.toNat := by
  simp only [Memory.size] at inside
  rw [UInt16.toNat_add]
  omega

end State

namespace Word

/-- Whether a word may go on elsewhere than at the next one. -/
def branches (word : Word) : Bool :=
  match word.family.val with
  | 0x0 => word.byte == 0xEE
  | 0x1 | 0x2 | 0x3 | 0x4 | 0x5 | 0x9 | 0xB => true
  | 0xE => word.byte == 0x9E || word.byte == 0xA1
  | 0xF => word.byte == 0x0A
  | _ => false

def skips (word : Word) (state : State) : Bool :=
  match word.family.val with
  | 0x3 => state.register word.x == word.byte
  | 0x4 => state.register word.x != word.byte
  | 0x5 => state.register word.x == state.register word.y
  | 0x9 => state.register word.x != state.register word.y
  | 0xE =>
    word.byte == 0x9E && state.presses (state.register word.x) ||
      word.byte == 0xA1 && !state.presses (state.register word.x)
  | _ => false

def waits (word : Word) (state : State) : Bool :=
  word.family.val == 0xF && word.byte == 0x0A && state.keypad.downKeys.isEmpty

/-- Where execution goes on after a word, if there is something to return to. -/
def continuation? (word : Word) (state : State) : Option Nat :=
  match word.family.val with
  | 0x1 | 0x2 => some word.address.val
  | 0xB => some (word.address.val + (state.register .offset).toNat)
  | _ =>
    if word.isReturn then state.stack.toList.getLast?.map UInt16.toNat
    else if word.skips state then some (state.pc.toNat + 4)
    else if word.waits state then some state.pc.toNat
    else some (state.pc.toNat + 2)

variable {word : Word} {instruction : Instruction} {dialect : Dialect} {byte : UInt8}
  {before after state : State}

theorem branches_of_standsFor (listed : word.StandsFor instruction) :
    word.branches = instruction.branches := by
  cases listed with
  | ret family byte | keyDown family byte | keyUp family byte | awaitKey family byte =>
      change word.branches = true
      simp only [branches, family, byte]
      decide
  | jump family | call family | equalsByte family | differsFromByte family
    | equalsRegister family | differsFromRegister family | jumpOffset family =>
      change word.branches = true
      simp only [branches, family]
  | clear family byte | loadDelay family byte | setDelay family byte | setSound family byte
    | addIndex family byte | loadGlyph family byte | storeDecimal family byte
    | storeRegisters family byte | loadRegisters family byte =>
      change word.branches = false
      simp only [branches, family, byte]
      decide
  | load family | addByte family | loadIndex family | random family | draw family
    | combine operation family | arithmetic operation family | shift direction family =>
      change word.branches = false
      simp only [branches, family]

theorem exists_standsFor_of_branches (branches : word.branches = true) :
    ∃ instruction, word.StandsFor instruction := by
  unfold Word.branches at branches
  split at branches
  · exact ⟨_, .ret ‹_› (eq_of_beq branches)⟩
  · exact ⟨_, .jump ‹_›⟩
  · exact ⟨_, .call ‹_›⟩
  · exact ⟨_, .equalsByte ‹_›⟩
  · exact ⟨_, .differsFromByte ‹_›⟩
  · exact ⟨_, .equalsRegister ‹_›⟩
  · exact ⟨_, .differsFromRegister ‹_›⟩
  · exact ⟨_, .jumpOffset ‹_›⟩
  · rcases Bool.or_eq_true_iff.mp branches with down | up
    · exact ⟨_, .keyDown ‹_› (eq_of_beq down)⟩
    · exact ⟨_, .keyUp ‹_› (eq_of_beq up)⟩
  · exact ⟨_, .awaitKey ‹_› (eq_of_beq branches)⟩
  · cases branches

/-- A word that may not go on elsewhere is followed by the next one. -/
theorem pc_of_straight (straight : word.branches = false)
    (executed : word.execute dialect byte before = .ok after) : after.pc = before.pc + 2 := by
  unfold execute at executed
  split at executed
  · rename_i decoded
    rw [branches_of_standsFor (standsFor_of_decode decoded)] at straight
    exact Instruction.pc_of_straight straight executed
  · cases executed
    rfl

theorem branches_of_isReturn (returns : word.isReturn = true) : word.branches = true :=
  branches_of_standsFor (standsFor_of_decode (isReturn_iff.mp returns))

theorem branches_of_skips (skips : word.skips state = true) : word.branches = true := by
  unfold Word.skips at skips
  split at skips
  case h_5 family =>
    simp only [branches, family, Bool.or_eq_true]
    rcases Bool.or_eq_true_iff.mp skips with down | up
    · exact Or.inl (Bool.and_eq_true_iff.mp down).1
    · exact Or.inr (Bool.and_eq_true_iff.mp up).1
  case h_6 => cases skips
  all_goals
    rename_i family
    simp only [branches, family]

theorem branches_of_waits (waits : word.waits state = true) : word.branches = true := by
  simp only [Word.waits, Bool.and_eq_true, beq_iff_eq] at waits
  obtain ⟨⟨family, byte⟩, -⟩ := waits
  exact branches_of_standsFor (.awaitKey family byte)

theorem continuation?_of_straight (straight : word.branches = false) (state : State) :
    word.continuation? state = some (state.pc.toNat + 2) := by
  have remains : ¬word.isReturn = true := fun returns => by
    cases straight.symm.trans (branches_of_isReturn returns)
  have unskipped : ¬word.skips state = true := fun skips => by
    cases straight.symm.trans (branches_of_skips skips)
  have unwaited : ¬word.waits state = true := fun waits => by
    cases straight.symm.trans (branches_of_waits waits)
  unfold continuation?
  split
  case h_1 family | h_2 family | h_3 family => simp [branches, family] at straight
  case h_4 => rw [if_neg remains, if_neg unskipped, if_neg unwaited]

/-- A condition holds exactly if the word that tests it skips the next one. -/
theorem skips_eq_holds {condition : Condition} (listed : word.StandsFor (.skip condition))
    (state : State) : word.skips state = condition.holds state := by
  cases listed with
  | keyDown family byte =>
      simp only [skips, family, byte, state.presses_eq, Condition.holds]
      simp
  | keyUp family byte =>
      simp only [skips, family, byte, state.presses_eq, Condition.holds]
      simp
  | _ family => simp only [skips, family, Condition.holds]

theorem continuation?_of_skip {condition : Condition} (listed : word.StandsFor (.skip condition))
    (state : State) :
    word.continuation? state =
      some (state.pc.toNat + if condition.holds state then 4 else 2) := by
  rw [← skips_eq_holds listed state]
  have remains : word.isReturn = false ∧ word.waits state = false ∧
      word.continuation? state =
        if word.isReturn then state.stack.toList.getLast?.map UInt16.toNat
        else if word.skips state then some (state.pc.toNat + 4)
        else if word.waits state then some state.pc.toNat
        else some (state.pc.toNat + 2) := by
    cases listed with
    | _ family => simp [continuation?, isReturn, waits, family]
  obtain ⟨remains, unwaited, continues⟩ := remains
  rw [continues, remains, unwaited]
  cases word.skips state <;> rfl

theorem toNat_ofNat_address (address : Address) :
    (UInt16.ofNat address.val).toNat = address.val := by
  have below := address.isLt
  simp only [Memory.size] at below
  rw [UInt16.toNat_ofNat']
  omega

/-- The new program counter after a word is where it goes on. -/
theorem continuation?_eq_some (inside : before.pc.toNat + 2 ≤ Memory.size)
    (executed : word.execute dialect byte before = .ok after) :
    word.continuation? before = some after.pc.toNat := by
  cases branching : word.branches with
  | false =>
      rw [continuation?_of_straight branching, pc_of_straight branching executed,
        State.toNat_pc_add inside 2 (by decide)]
      rfl
  | true =>
      obtain ⟨instruction, listed⟩ := exists_standsFor_of_branches branching
      rw [branches_of_standsFor listed] at branching
      simp only [execute, decode_of_standsFor listed] at executed
      cases instruction with
      | skip condition =>
          cases executed
          rw [continuation?_of_skip listed]
          cases condition.holds before with
          | false => exact congrArg some (State.toNat_pc_add inside 2 (by decide)).symm
          | true => exact congrArg some (State.toNat_pc_add inside 4 (by decide)).symm
      | jump target =>
          cases executed
          cases listed with
          | jump family => simp only [continuation?, family, toNat_ofNat_address]
      | call target =>
          obtain ⟨stack, -, rfl⟩ := Instruction.execute_call_eq_ok_iff.mp executed
          cases listed with
          | call family => simp only [continuation?, family, toNat_ofNat_address]
      | jumpOffset base =>
          cases executed
          cases listed with
          | jumpOffset family =>
              have below := word.address.isLt
              have small := (before.register .offset).toNat_lt
              simp only [Memory.size] at below
              simp only [continuation?, family, UInt16.toNat_add, toNat_ofNat_address,
                UInt8.toNat_toUInt16]
              congr 1
              omega
      | ret =>
          obtain ⟨popped, found, rfl⟩ := Instruction.execute_ret_eq_ok_iff.mp executed
          cases listed with
          | ret family byte =>
              have waiting := CallStack.toList_of_pop? found
              simp only [continuation?, family, isReturn, byte, waiting, List.getLast?_concat]
              rfl
      | awaitKey x =>
          cases (Instruction.execute_awaitKey x dialect _ before).symm.trans executed
          cases listed with
          | awaitKey family byte =>
              simp only [continuation?, family, isReturn, skips, waits, byte,
                before.keypad.lowestDown?_eq_head?]
              cases before.keypad.downKeys with
              | nil => rfl
              | cons key keys => exact congrArg some (State.toNat_pc_add inside 2 (by decide)).symm
      | _ => cases branching

end Word

namespace Machine

/-- After a step that succeeds, in place as well, execution goes on where the digits of its
word and the state before it say. -/
theorem step_continues {machine : Machine} {word : Word}
    (fetched : machine.state.fetch = .ok word) (stepped : machine.step.value = .ok ()) :
    let before := machine.state
    let after := machine.step.machine.state
    word.continuation? before = some after.pc.toNat ∧
      (word.branches = false → after.pc.toNat = before.pc.toNat + 2) ∧
      ((∀ instruction, ¬word.StandsFor instruction) → after.pc.toNat = before.pc.toNat + 2) ∧
      (∀ byte : UInt8, 0xF < byte.toNat → before.presses byte = false) ∧
      (machine.Reachable → ∀ log, Effect.outcome Effect.step ⟨machine, log⟩ =
        (.ok (), ⟨machine.step.machine, log ++ machine.step.log⟩)) := by
  obtain ⟨state, executed, machineEq⟩ := exists_of_stepped fetched stepped
  have inside := State.pc_add_two_le_of_fetch fetched
  intro before after
  have afterEq : after = state := congrArg Machine.state machineEq
  have continues := Word.continuation?_eq_some inside executed
  have next : word.branches = false → state.pc.toNat = machine.state.pc.toNat + 2 := by
    intro straight
    rw [Word.continuation?_of_straight straight] at continues
    exact (Option.some.inj continues).symm
  rw [afterEq]
  refine ⟨continues, next, ?_, ?_, ?_⟩
  · intro unlisted
    apply next
    apply Bool.eq_false_iff.mpr
    intro branches
    obtain ⟨instruction, listed⟩ := Word.exists_standsFor_of_branches branches
    exact unlisted instruction listed
  · intro byte nameless
    exact machine.state.presses_eq_false nameless
  · intro reachable
    exact Effect.outcome_step_of_ok reachable.bounded stepped

/-- A program that jumps as far as it can, before it jumps. -/
def overshooting : Machine :=
  (new {} (.cycle #[])).performAll [.load #[0x60, 0xFF, 0xBF, 0xFF], .step]

theorem state_overshooting :
    overshooting.state =
      { (State.boot #[0x60, 0xFF, 0xBF, 0xFF]).setRegister 0 0xFF with pc := 0x202 } := by
  have fits : #[(0x60 : UInt8), 0xFF, 0xBF, 0xFF].size ≤ Memory.programCapacity := by decide
  have first : #[(0x60 : UInt8), 0xFF, 0xBF, 0xFF][0]? = some 0x60 := rfl
  have second : #[(0x60 : UInt8), 0xFF, 0xBF, 0xFF][1]? = some 0xFF := rfl
  have fetched : (State.boot #[0x60, 0xFF, 0xBF, 0xFF]).fetch = .ok 0x60FF :=
    State.fetch_boot first second
  rw [overshooting, performAll_load_step _ fits fetched rfl]
  rfl

/-- It goes on outside memory. -/
theorem step_continues_overshooting :
    overshooting.state.fetch = .ok 0xBFFF ∧ overshooting.step.value = .ok () ∧
      overshooting.step.machine.state.pc.toNat = 0x10FE := by
  have holds : overshooting.state.memory = .image #[0x60, 0xFF, 0xBF, 0xFF] := by
    rw [state_overshooting]
    rfl
  have counter : overshooting.state.pc = 0x202 := by rw [state_overshooting]
  have offset : overshooting.state.register .offset = 0xFF := by
    rw [state_overshooting]
    exact State.register_setRegister_self ..
  have third : #[(0x60 : UInt8), 0xFF, 0xBF, 0xFF][2]? = some 0xBF := rfl
  have fourth : #[(0x60 : UInt8), 0xFF, 0xBF, 0xFF][3]? = some 0xFF := rfl
  have fetched : overshooting.state.fetch = .ok 0xBFFF :=
    State.fetch_second holds counter third fourth
  have jumps : ∀ state : State, (0xBFFF : Word).continuation? state =
      some (0xFFF + (state.register .offset).toNat) := fun _ => rfl
  have stepped : overshooting.step.value = .ok () := by
    rw [step_of_executed fetched rfl]
  refine ⟨fetched, stepped, ?_⟩
  obtain ⟨continues, -⟩ := step_continues fetched stepped
  rw [jumps, offset] at continues
  exact (Option.some.inj continues).symm

end Machine

end ChipEight
