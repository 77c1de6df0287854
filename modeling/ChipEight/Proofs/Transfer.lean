import ChipEight.Proofs.Confinement
import ChipEight.Proofs.Nesting

/-!
# Moving registers to memory and back

Storing registers and loading them are inverse to each other on the block of
memory at the index register, which has one cell for each register moved.  Where
the dialect advances the index register it ends up behind that block, so that the
blocks of successive transfers join.
-/

namespace ChipEight

namespace State

/-- Advancing the index register past a block in memory does not wrap around. -/
theorem toNat_index_advanceIndex (state : State) {dialect : Dialect} {last : Register}
    (inside : state.index.toNat + (last.val + 1) ≤ Memory.size) :
    (state.advanceIndex dialect last).index.toNat =
      state.index.toNat + if dialect.indexIncrement then last.val + 1 else 0 := by
  rw [advanceIndex_eq]
  simp only [Memory.size] at inside
  cases dialect.indexIncrement with
  | false => rfl
  | true =>
      simp only [if_true, UInt16.toNat_add, UInt16.toNat_ofNat']
      omega

@[simp]
theorem register_advanceIndex (state : State) (dialect : Dialect) (last number : Register) :
    (state.advanceIndex dialect last).register number = state.register number := by
  unfold advanceIndex
  split <;> rfl

@[simp]
theorem memory_advanceIndex (state : State) (dialect : Dialect) (last : Register) :
    (state.advanceIndex dialect last).memory = state.memory := by
  unfold advanceIndex
  split <;> rfl

@[simp]
theorem index_replaceRegisters (state : State) (bytes : List UInt8) :
    (state.replaceRegisters bytes).index = state.index := by
  simp only [replaceRegisters]

theorem register_replaceRegisters (state : State) (bytes : List UInt8) (number : Register) :
    (state.replaceRegisters bytes).register number =
      bytes.getD number.val (state.register number) := by
  simp [register, replaceRegisters]

theorem getElem?_take_registers (state : State) {number last : Register} (moved : number ≤ last) :
    (state.registers.toList.take (last.val + 1))[number.val]? = some (state.register number) := by
  have within : number.val < last.val + 1 := Nat.lt_succ_of_le moved
  rw [List.getElem?_take_of_lt within]
  simp [register]

/-- What storing the registers up to the last does. -/
structure Stores (dialect : Dialect) (last : Register) (before after : State) : Prop where
  cell_eq : ∀ number, number ≤ last →
    after.memory.cells[before.index.toNat + number.val]? = some (before.register number)
  spared : ∀ address,
    address < before.index.toNat ∨ before.index.toNat + last.val < address →
      after.memory.cells[address]? = before.memory.cells[address]?
  inside : before.index.toNat + (last.val + 1) ≤ Memory.size
  index_eq : after.index.toNat =
    before.index.toNat + if dialect.indexIncrement then last.val + 1 else 0
  rest_eq : after =
    { before with pc := before.pc + 2, index := after.index, memory := after.memory }

/-- What loading the registers up to the last does. -/
structure Loads (dialect : Dialect) (last : Register) (before after : State) : Prop where
  register_eq : ∀ number, number ≤ last →
    before.memory.cells[before.index.toNat + number.val]? = some (after.register number)
  spared : ∀ number, last < number → after.register number = before.register number
  inside : before.index.toNat + (last.val + 1) ≤ Memory.size
  index_eq : after.index.toNat =
    before.index.toNat + if dialect.indexIncrement then last.val + 1 else 0
  rest_eq : after =
    { before with pc := before.pc + 2, index := after.index, registers := after.registers }

variable {dialect : Dialect} {last : Register} {before stored later loaded : State}

/-- Registers that were stored are loaded again, whatever happened outside the
block in between. -/
theorem Stores.register_of_loads (stores : before.Stores dialect last stored)
    (sameIndex : later.index = before.index)
    (kept : ∀ address, before.index.toNat ≤ address → address ≤ before.index.toNat + last.val →
      later.memory.cells[address]? = stored.memory.cells[address]?)
    (loads : later.Loads dialect last loaded) {number : Register} (moved : number ≤ last) :
    loaded.register number = before.register number := by
  have found := loads.register_eq number moved
  rw [sameIndex, kept _ (Nat.le_add_right ..) (Nat.add_le_add_left moved _),
    stores.cell_eq number moved] at found
  exact (Option.some.inj found).symm

/-- Cells that were loaded are stored as they were. -/
theorem Loads.memory_of_stores (loads : before.Loads dialect last loaded)
    (stores : Stores dialect last { loaded with index := before.index } stored) :
    stored.memory = before.memory := by
  have untouched : loaded.memory = before.memory := by rw [loads.rest_eq]
  apply Memory.ext_getElem?
  intro address _
  by_cases outside : address < before.index.toNat ∨ before.index.toNat + last.val < address
  · rw [stores.spared address outside, untouched]
  · have offsetLt : address - before.index.toNat < 16 := by
      have lastLt := last.isLt
      omega
    have offsetLe : address - before.index.toNat ≤ last.val := by omega
    have moved : (⟨address - before.index.toNat, offsetLt⟩ : Register) ≤ last := offsetLe
    have position : before.index.toNat + (address - before.index.toNat) = address := by omega
    have held := loads.register_eq _ moved
    have written := stores.cell_eq _ moved
    rw [position] at held
    rw [position] at written
    exact written.trans held.symm

end State

namespace Word

/-- Whether a word stores registers, `Fx55`. -/
def isStore (word : Word) : Bool :=
  word.family.val == 0xF && word.byte == 0x55

/-- Whether a word loads registers, `Fx65`. -/
def isLoad (word : Word) : Bool :=
  word.family.val == 0xF && word.byte == 0x65

/-- Whether a word points the index register elsewhere, `Annn`, `Fx1E` or `Fx29`. -/
def movesIndex (word : Word) : Bool :=
  word.family.val == 0xA || word.family.val == 0xF && (word.byte == 0x1E || word.byte == 0x29)

/-- How many registers a word stores or loads. -/
def transferCount (word : Word) : Nat :=
  if word.isStore || word.isLoad then word.x.val + 1 else 0

variable {word : Word} {dialect : Dialect} {byte : UInt8} {before after : State}

theorem digits_of_isStore (stores : word.isStore = true) :
    word.family.val = 0xF ∧ word.byte = 0x55 := by
  simpa [isStore] using stores

theorem digits_of_isLoad (loads : word.isLoad = true) :
    word.family.val = 0xF ∧ word.byte = 0x65 := by
  simpa [isLoad] using loads

theorem stores_of_execute (stores : word.isStore = true)
    (executed : word.execute dialect byte before = .ok after) :
    before.Stores dialect word.x after := by
  obtain ⟨family, byteEq⟩ := digits_of_isStore stores
  simp only [execute, decode_of_standsFor (.storeRegisters family byteEq)] at executed
  obtain ⟨memory, written, rfl⟩ := Instruction.execute_storeRegisters_eq_ok_iff.mp executed
  have length := before.length_take_registers word.x
  have inside : before.index.toNat + (word.x.val + 1) ≤ Memory.size := by
    have accepted := (Memory.write?_isSome_iff before.memory before.index.toNat _).mp
      (Option.isSome_of_eq_some written)
    rw [length] at accepted
    refine accepted.resolve_left fun empty => ?_
    rw [empty] at length
    cases length
  constructor
  · intro number moved
    have within : number.val < (before.registers.toList.take (word.x.val + 1)).length := by
      rw [length]
      exact Nat.lt_succ_of_le moved
    rw [State.memory_advanceIndex, ← before.getElem?_take_registers moved]
    exact Memory.getElem?_write?_of_inside written within
  · intro address outside
    rw [State.memory_advanceIndex]
    apply Memory.getElem?_write?_of_outside written
    rw [length]
    omega
  · exact inside
  · exact State.toNat_index_advanceIndex _ inside
  · rw [State.advanceIndex_eq]
    rfl

theorem loads_of_execute (loads : word.isLoad = true)
    (executed : word.execute dialect byte before = .ok after) :
    before.Loads dialect word.x after := by
  obtain ⟨family, byteEq⟩ := digits_of_isLoad loads
  simp only [execute, decode_of_standsFor (.loadRegisters family byteEq)] at executed
  obtain ⟨registers, index, afterEq⟩ := Instruction.exists_of_execute_loadRegisters executed
  obtain ⟨bytes, read, rfl⟩ := Instruction.execute_loadRegisters_eq_ok_iff.mp executed
  have found := State.read_eq_ok_iff.mp read
  have length := Memory.length_of_read? found
  have inside : before.index.toNat + (word.x.val + 1) ≤ Memory.size := by
    have accepted := (Memory.read?_isSome_iff before.memory before.index.toNat _).mp
      (Option.isSome_of_eq_some found)
    exact accepted.resolve_left (Nat.succ_ne_zero _)
  constructor
  · intro number moved
    have within : number.val < word.x.val + 1 := Nat.lt_succ_of_le moved
    have covered : number.val < bytes.length := by
      rw [length]
      exact within
    rw [← Memory.getElem?_of_read? found within, State.register_advanceIndex,
      State.register_replaceRegisters, List.getD_eq_getElem?_getD,
      List.getElem?_eq_getElem covered, Option.getD_some]
  · intro number beyond
    have missing : bytes.length ≤ number.val := by
      rw [length]
      exact beyond
    rw [State.register_advanceIndex, State.register_replaceRegisters,
      List.getD_eq_getElem?_getD, List.getElem?_eq_none missing, Option.getD_none,
      State.register_next]
  · exact inside
  · have insideToo : (before.next.replaceRegisters bytes).index.toNat + (word.x.val + 1) ≤
        Memory.size := by
      rw [State.index_replaceRegisters, State.index_next]
      exact inside
    rw [State.toNat_index_advanceIndex _ insideToo, State.index_replaceRegisters,
      State.index_next]
  · rw [afterEq]
    rfl

theorem exists_execute_of_accesses {length : Nat} (accesses : word.Accesses length)
    (state : State) (inside : state.index.toNat + length ≤ Memory.size) (dialect : Dialect)
    (byte : UInt8) : ∃ after, word.execute dialect byte state = .ok after := by
  cases executed : word.execute dialect byte state with
  | ok after => exact ⟨after, rfl⟩
  | error fault =>
      have refusal := execute_eq_error_iff.mp executed
      rw [bind_refusal?_of_accesses accesses] at refusal
      obtain ⟨-, outside, -⟩ := State.blockFault?_eq_some_iff.mp refusal
      omega

/-- A word that transfers registers leaves the index register behind them, if the
dialect advances it, and in memory. -/
theorem index_of_transfer (transfers : (word.isStore || word.isLoad) = true)
    (executed : word.execute dialect byte before = .ok after) :
    before.index.toNat + (word.x.val + 1) ≤ Memory.size ∧
      after.index.toNat =
        before.index.toNat + if dialect.indexIncrement then word.x.val + 1 else 0 := by
  rcases Bool.or_eq_true_iff.mp transfers with stores | loads
  · have stored := stores_of_execute stores executed
    exact ⟨stored.inside, stored.index_eq⟩
  · have loaded := loads_of_execute loads executed
    exact ⟨loaded.inside, loaded.index_eq⟩

/-- A word that transfers no registers and does not point the index register
elsewhere leaves it alone. -/
theorem index_of_unmoved (rests : (word.isStore || word.isLoad) = false)
    (unmoved : word.movesIndex = false)
    (executed : word.execute dialect byte before = .ok after) : after.index = before.index := by
  have spared : ¬word.Writes dialect before .index := by
    intro writes
    cases writes with
    | loadIndex family => simp [movesIndex, family] at unmoved
    | moveIndex family byte =>
        rcases byte with byte | byte <;> simp [movesIndex, family, byte] at unmoved
    | advanceIndex _ family byte =>
        rcases byte with byte | byte <;> simp [isStore, isLoad, family, byte] at rests
  exact same_of_execute spared executed

end Word

namespace Exchange

/-- How many registers were stored or loaded. -/
def transferCount (exchange : Exchange) : Nat :=
  exchange.executed?.elim 0 Word.transferCount

def transferTotal : List Exchange → Nat
  | [] => 0
  | exchange :: exchanges => exchange.transferCount + transferTotal exchanges

/-- The addresses to which registers were stored or from which they were loaded. -/
def transferred (exchange : Exchange) : List Nat :=
  List.range' exchange.before.state.index.toNat exchange.transferCount

theorem index_after (exchange : Exchange) (onward : exchange.call.onward = true)
    (unmoved : ∀ word, exchange.executed? = some word → word.movesIndex = false) :
    exchange.after.state.index.toNat =
        exchange.before.state.index.toNat +
          (if exchange.before.config.dialect.indexIncrement then exchange.transferCount else 0) ∧
      (0 < exchange.transferCount →
        exchange.before.state.index.toNat + exchange.transferCount ≤ Memory.size) := by
  cases recorded : exchange.executed? with
  | none =>
      obtain ⟨peripherals, stateEq⟩ := exists_withPeripherals_of_unexecuted onward recorded
      rw [stateEq, transferCount, recorded]
      simp [State.withPeripherals]
  | some word =>
      obtain ⟨-, -, state, executed, afterEq⟩ := exists_of_executed? recorded
      have stateEq : exchange.after.state = state := congrArg Machine.state afterEq
      rw [stateEq, transferCount, recorded, Option.elim_some, Word.transferCount]
      cases transfers : word.isStore || word.isLoad with
      | false =>
          rw [Word.index_of_unmoved transfers (unmoved word recorded) executed]
          simp
      | true =>
          obtain ⟨inside, indexEq⟩ := Word.index_of_transfer transfers executed
          exact ⟨indexEq, fun _ => inside⟩

theorem lt_of_mem_transferred {exchange : Exchange} (onward : exchange.call.onward = true)
    (unmoved : ∀ word, exchange.executed? = some word → word.movesIndex = false) {address : Nat}
    (member : address ∈ exchange.transferred) : address < Memory.size := by
  obtain ⟨_, below⟩ := List.mem_range'_1.mp member
  have positive : 0 < exchange.transferCount := by omega
  exact Nat.lt_of_lt_of_le below ((exchange.index_after onward unmoved).2 positive)

end Exchange

namespace Machine

/-- A run that goes on without pointing the index register elsewhere. -/
structure TransfersOnward (machine : Machine) (calls : List Call) : Prop where
  onward : ∀ call ∈ calls, call.onward = true
  unmoved : ∀ exchange ∈ machine.exchanges calls, ∀ word, exchange.executed? = some word →
    word.movesIndex = false

variable {machine : Machine} {call : Call} {calls : List Call}

namespace TransfersOnward

theorem of_cons (run : machine.TransfersOnward (call :: calls)) :
    let next := (machine.perform call).machine
    next.TransfersOnward calls ∧ next.config = machine.config ∧
      next.state.index.toNat =
        machine.state.index.toNat +
          if machine.config.dialect.indexIncrement then Exchange.transferCount ⟨machine, call⟩
          else 0 := by
  obtain ⟨onward, onwardLater⟩ := List.forall_mem_cons.mp run.onward
  obtain ⟨unmoved, unmovedLater⟩ := List.forall_mem_cons.mp run.unmoved
  exact ⟨⟨onwardLater, unmovedLater⟩, machine.config_performAll [call],
    (Exchange.index_after ⟨machine, call⟩ onward unmoved).1⟩

theorem index_performAll (run : machine.TransfersOnward calls) :
    (machine.performAll calls).state.index.toNat =
      machine.state.index.toNat +
        if machine.config.dialect.indexIncrement then
          Exchange.transferTotal (machine.exchanges calls)
        else 0 := by
  induction calls generalizing machine with
  | nil => simp [performAll, exchanges, Exchange.transferTotal]
  | cons call calls ih =>
      obtain ⟨later, configEq, first⟩ := run.of_cons
      rw [performAll_cons, ih later, configEq, first, exchanges, Exchange.transferTotal]
      cases machine.config.dialect.indexIncrement with
      | false => simp
      | true => simp [Nat.add_assoc]

/-- The blocks of successive transfers join. -/
theorem flatMap_transferred (run : machine.TransfersOnward calls)
    (increments : machine.config.dialect.indexIncrement = true) :
    (machine.exchanges calls).flatMap Exchange.transferred =
      List.range' machine.state.index.toNat
        (Exchange.transferTotal (machine.exchanges calls)) := by
  induction calls generalizing machine with
  | nil => rfl
  | cons call calls ih =>
      obtain ⟨later, configEq, first⟩ := run.of_cons
      rw [increments, if_pos rfl] at first
      have rest := ih later (by rw [configEq, increments])
      rw [exchanges, List.flatMap_cons, Exchange.transferTotal, rest, first,
        ← List.range'_append_1]
      rfl

end TransfersOnward

/-- Storing registers and loading them are inverse to each other on a block in memory.  The
blocks of successive transfers join, or all start at one index, as the dialect has it. -/
theorem transfers_round_trip {store load : Word} (stores : store.isStore = true)
    (loads : load.isLoad = true) (sameLast : load.x = store.x) (dialect : Dialect)
    (byte otherByte : UInt8) {before : State}
    (inside : before.index.toNat + store.x.val + 1 ≤ Memory.size) :
    (∃ stored, store.execute dialect byte before = .ok stored ∧
      before.Stores dialect store.x stored ∧
      ∀ later : State, later.index = before.index →
        (∀ address, before.index.toNat ≤ address → address ≤ before.index.toNat + store.x.val →
          later.memory.cells[address]? = stored.memory.cells[address]?) →
        ∃ loaded, load.execute dialect otherByte later = .ok loaded ∧
          (∀ number, number ≤ store.x → loaded.register number = before.register number) ∧
          ∀ number, store.x < number → loaded.register number = later.register number) ∧
      (∃ loaded, load.execute dialect byte before = .ok loaded ∧
        before.Loads dialect store.x loaded ∧
        ∃ stored, store.execute dialect otherByte { loaded with index := before.index } =
            .ok stored ∧ stored.memory = before.memory) ∧
      ∀ (machine : Machine) (calls : List Call), machine.TransfersOnward calls →
        let exchanges := machine.exchanges calls
        let total := Exchange.transferTotal exchanges
        let reached := machine.performAll calls
        (∀ exchange ∈ exchanges, ∀ address ∈ exchange.transferred, address < Memory.size) ∧
          (machine.config.dialect.indexIncrement = true →
            exchanges.flatMap Exchange.transferred =
                List.range' machine.state.index.toNat total ∧
              reached.state.index.toNat = machine.state.index.toNat + total) ∧
          (machine.config.dialect.indexIncrement = false →
            reached.state.index = machine.state.index) ∧
          (machine.Bounded → ∀ log,
            (Effect.outcome (Call.inPlaceAll calls) ⟨machine, log⟩).2.machine = reached) := by
  obtain ⟨storeFamily, storeByte⟩ := Word.digits_of_isStore stores
  obtain ⟨loadFamily, loadByte⟩ := Word.digits_of_isLoad loads
  have storeAccesses : store.Accesses (store.x.val + 1) := .storeRegisters storeFamily storeByte
  have loadAccesses : load.Accesses (store.x.val + 1) := by
    rw [← sameLast]
    exact .loadRegisters loadFamily loadByte
  refine ⟨?_, ?_, ?_⟩
  · obtain ⟨stored, executed⟩ :=
      Word.exists_execute_of_accesses storeAccesses before inside dialect byte
    have storing := Word.stores_of_execute stores executed
    refine ⟨stored, executed, storing, ?_⟩
    intro later sameIndex kept
    have insideToo : later.index.toNat + (store.x.val + 1) ≤ Memory.size := by
      rw [sameIndex]
      exact inside
    obtain ⟨loaded, reloaded⟩ :=
      Word.exists_execute_of_accesses loadAccesses later insideToo dialect otherByte
    have loading := Word.loads_of_execute loads reloaded
    rw [sameLast] at loading
    exact ⟨loaded, reloaded, fun number => storing.register_of_loads sameIndex kept loading,
      loading.spared⟩
  · obtain ⟨loaded, executed⟩ :=
      Word.exists_execute_of_accesses loadAccesses before inside dialect byte
    have loading := Word.loads_of_execute loads executed
    rw [sameLast] at loading
    refine ⟨loaded, executed, loading, ?_⟩
    obtain ⟨stored, restored⟩ := Word.exists_execute_of_accesses storeAccesses
      { loaded with index := before.index } inside dialect otherByte
    exact ⟨stored, restored, loading.memory_of_stores (Word.stores_of_execute stores restored)⟩
  · intro machine calls run exchanges total reached
    have moved := run.index_performAll
    refine ⟨?_, ?_, ?_, ?_⟩
    · intro exchange member address transferred
      exact Exchange.lt_of_mem_transferred
        (run.onward _ (call_mem_of_mem_exchanges member)) (run.unmoved exchange member) transferred
    · intro increments
      rw [increments, if_pos rfl] at moved
      exact ⟨run.flatMap_transferred increments, moved⟩
    · intro stays
      rw [stays] at moved
      exact UInt16.toNat_inj.mp moved
    · intro bounded log
      rw [Call.outcome_inPlaceAll calls ⟨machine, log⟩ bounded]

/-- A state with the index register at the last sixteen cells of memory and seven in
the flag register. -/
def topmost : State :=
  { State.initial.setRegister .flag 7 with index := 0xFF0 }

/-- A program that stores two registers. -/
def pairStoring : Machine :=
  (new {} (.cycle #[])).performAll [.load #[0xF1, 0x55]]

/-- All registers fill memory up to its end, and are loaded again after they were
cleared; and two registers are stored in the first two cells. -/
theorem transfers_round_trip_topmost :
    let store : Word := 0xFF55
    let load : Word := 0xFF65
    store.isStore = true ∧ load.isLoad = true ∧ load.x = store.x ∧
      topmost.index.toNat + store.x.val + 1 ≤ Memory.size ∧
      (∃ stored, store.execute {} 0 topmost = .ok stored ∧ stored.index.toNat = 0x1000 ∧
        ∃ loaded, load.execute {} 0
            { stored with index := topmost.index, registers := State.initial.registers } =
              .ok loaded ∧ loaded.register .flag = 7) ∧
      pairStoring.TransfersOnward [.step] ∧
      (pairStoring.exchanges [.step]).flatMap Exchange.transferred = [0, 1] := by
  intro store load
  have stores : store.isStore = true := by decide
  have loads : load.isLoad = true := by decide
  have sameLast : load.x = store.x := by decide
  have inside : topmost.index.toNat + store.x.val + 1 ≤ Memory.size := by decide
  obtain ⟨⟨stored, executed, storing, reloads⟩, -, runs⟩ :=
    transfers_round_trip stores loads sameLast {} 0 0 inside
  have last : (Register.flag : Register) ≤ store.x := by decide
  have held : topmost.register .flag = 7 := State.register_setRegister_self ..
  have indexEq : stored.index.toNat = 0x1000 := by
    rw [storing.index_eq]
    decide
  obtain ⟨loaded, reloaded, restored, -⟩ := reloads
    { stored with index := topmost.index, registers := State.initial.registers } rfl
    (fun _ _ _ => rfl)
  have first : #[(0xF1 : UInt8), 0x55][0]? = some 0xF1 := rfl
  have second : #[(0xF1 : UInt8), 0x55][1]? = some 0x55 := rfl
  have fetched : pairStoring.state.fetch = .ok 0xF155 := State.fetch_boot first second
  have accesses : Word.Accesses 0xF155 ((0xF155 : Word).x.val + 1) := .storeRegisters rfl rfl
  obtain ⟨after, storedPair⟩ := Word.exists_execute_of_accesses accesses pairStoring.state
    (by decide) pairStoring.config.dialect pairStoring.random.byte
  have recorded := Exchange.executed?_of_executed fetched storedPair
  have run : pairStoring.TransfersOnward [.step] := by
    refine ⟨fun call member => ?_, fun exchange member word found => ?_⟩
    · cases List.mem_singleton.mp member
      rfl
    · cases List.mem_singleton.mp member
      cases recorded.symm.trans found
      rfl
  refine ⟨stores, loads, sameLast, inside, ⟨stored, executed, indexEq, loaded, reloaded, ?_⟩,
    run, ?_⟩
  · rw [restored .flag last, held]
  · have single : ∀ machine : Machine, Exchange.transferTotal (machine.exchanges [.step]) =
        Exchange.transferCount ⟨machine, .step⟩ := fun _ => rfl
    rw [((runs pairStoring [.step] run).2.1 rfl).1, single, Exchange.transferCount, recorded]
    rfl

end Machine

end ChipEight
