import ChipEight.Proofs.InPlace.Calls

/-!
# Reading programs from a source

What a source delivers before its data ends or a read fails, taken together,
settles how a load from it ends.  Neither the number of bytes that each read asks
for nor the way in which the bytes are cut into answers makes a difference, and
interruptions make none either.
-/

namespace ChipEight

namespace ProgramSource

/-- All bytes that a source would deliver before its data ends or a read fails. -/
def data : ProgramSource → List UInt8
  | [] => []
  | .interrupted :: source => data source
  | .failed _ :: _ => []
  | .delivered chunk :: source => if chunk.isEmpty then [] else chunk ++ data source

/-- The cause of the failure behind the data, if the data does not just end. -/
def failure? : ProgramSource → Option String
  | [] => none
  | .interrupted :: source => failure? source
  | .failed cause :: _ => some cause
  | .delivered chunk :: source => if chunk.isEmpty then none else failure? source

/-- How a source answers a read that asks for a number of bytes, and what is left of
the source. -/
def read (asked : Nat) : ProgramSource → ReadAnswer × ProgramSource
  | [] => (.delivered [], [])
  | .interrupted :: source => (.interrupted, source)
  | .failed cause :: source => (.failed cause, source)
  | .delivered chunk :: source => (.delivered (chunk.take asked), putBack (chunk.drop asked) source)

/-- Reads that follow one another up to a limit.  Each asks for at least one byte and
for no more than the limit leaves; an interrupted read is followed by another, and
the end of the data, a failure or the limit by none. -/
inductive Reads : Nat → ProgramSource → Except String (List UInt8) → ProgramSource → Prop where
  | full (source : ProgramSource) : Reads 0 source (.ok []) source
  | ended {limit asked : Nat} {source unread : ProgramSource} : 0 < asked → asked ≤ limit →
      source.read asked = (.delivered [], unread) → Reads limit source (.ok []) unread
  | failed {limit asked : Nat} {source unread : ProgramSource} {cause : String} :
      0 < asked → asked ≤ limit → source.read asked = (.failed cause, unread) →
      Reads limit source (.error cause) unread
  | interrupted {limit asked : Nat} {source rest unread : ProgramSource}
      {result : Except String (List UInt8)} : 0 < asked → asked ≤ limit →
      source.read asked = (.interrupted, rest) → Reads limit rest result unread →
      Reads limit source result unread
  | delivered {limit asked : Nat} {source rest unread : ProgramSource} {bytes : List UInt8}
      {result : Except String (List UInt8)} : 0 < asked → asked ≤ limit → bytes ≠ [] →
      source.read asked = (.delivered bytes, rest) →
      Reads (limit - bytes.length) rest result unread →
      Reads limit source (result.map (bytes ++ ·)) unread

variable {limit asked : Nat} {source later unread : ProgramSource}
  {result : Except String (List UInt8)} {first second : List UInt8}

theorem data_delivered (nonempty : first ≠ []) (source : ProgramSource) :
    data (.delivered first :: source) = first ++ source.data := by
  simp [data, nonempty]

theorem failure?_delivered (nonempty : first ≠ []) (source : ProgramSource) :
    failure? (.delivered first :: source) = source.failure? := by
  simp [failure?, nonempty]

theorem collect_interrupted (positive : 0 < limit) (source : ProgramSource) :
    collect limit (.interrupted :: source) = source.collect limit := by
  cases limit with
  | zero => cases positive
  | succ limit => rw [collect]

/-- What is collected in all if some bytes were delivered before the rest. -/
def prepend (first : List UInt8) (rest : Except String (List UInt8) × ProgramSource) :
    Except String (List UInt8) × ProgramSource :=
  (rest.1.map (first ++ ·), rest.2)

theorem prepend_prepend (first second : List UInt8)
    (rest : Except String (List UInt8) × ProgramSource) :
    prepend first (prepend second rest) = prepend (first ++ second) rest := by
  obtain ⟨more | more, unread⟩ := rest
  · rfl
  · simp [prepend, Except.map]

/-- An answer that the limit leaves room for is followed by the next read. -/
theorem collect_delivered_of_le (nonempty : first ≠ []) (fits : first.length ≤ limit)
    (later : ProgramSource) :
    collect limit (.delivered first :: later) =
      prepend first (later.collect (limit - first.length)) := by
  have positive := List.length_pos_iff.mpr nonempty
  obtain ⟨below, rfl⟩ := Nat.exists_eq_add_one.mpr (Nat.lt_of_lt_of_le positive fits)
  simp only [collect]
  rw [if_neg (by simp [nonempty])]
  split
  · rename_i reached
    have whole : below + 1 = first.length := by omega
    simp [prepend, whole, putBack, collect, Except.map]
  · obtain ⟨more | more, unread⟩ := collect (below + 1 - first.length) later <;> rfl

theorem collect_delivered_of_lt (positive : 0 < limit) (exceeds : limit < first.length)
    (later : ProgramSource) :
    collect limit (.delivered first :: later) =
      (.ok (first.take limit), putBack (first.drop limit) later) := by
  have nonempty : first ≠ [] := List.length_pos_iff.mp (Nat.lt_trans positive exceeds)
  obtain ⟨below, rfl⟩ := Nat.exists_eq_add_one.mpr positive
  simp only [collect]
  rw [if_neg (by simp [nonempty]), if_pos (by omega)]

/-- The first bytes of an answer can be collected apart from the others. -/
theorem collect_delivered (nonempty : first ≠ []) (fits : first.length ≤ limit)
    (second : List UInt8) (later : ProgramSource) :
    collect limit (.delivered (first ++ second) :: later) =
      prepend first ((putBack second later).collect (limit - first.length)) := by
  have positive := List.length_pos_iff.mpr nonempty
  by_cases empty : second = []
  · subst empty
    rw [List.append_nil]
    exact collect_delivered_of_le nonempty fits later
  have apart : putBack second later = .delivered second :: later := by simp [putBack, empty]
  have total : (first ++ second).length = first.length + second.length := List.length_append
  rw [apart]
  -- The limit may lie behind the second part, within it, or between the two.
  by_cases covered : second.length ≤ limit - first.length
  · rw [collect_delivered_of_le (List.append_ne_nil_of_left_ne_nil nonempty _) (by omega),
      collect_delivered_of_le empty covered, prepend_prepend, total, Nat.sub_add_eq]
  · rw [collect_delivered_of_lt (by omega) (by omega), List.take_append, List.drop_append,
      List.take_of_length_le fits, List.drop_of_length_le fits, List.nil_append]
    by_cases room : 0 < limit - first.length
    · rw [collect_delivered_of_lt room (by omega)]
      rfl
    · have reached : limit - first.length = 0 := by omega
      simp [prepend, reached, collect, putBack, empty, Except.map]

/-- The limit, the data and the failure behind it settle what is collected. -/
theorem fst_collect (limit : Nat) (source : ProgramSource) :
    (source.collect limit).1 =
      if limit ≤ (data source).length then .ok ((data source).take limit)
      else match failure? source with
        | some cause => .error cause
        | none => .ok (data source) := by
  induction source generalizing limit with
  | nil => cases limit <;> rfl
  | cons answer source ih =>
      cases limit with
      | zero => simp [collect]
      | succ limit =>
          cases answer with
          | interrupted =>
              rw [collect_interrupted (Nat.succ_pos _)]
              exact ih (limit + 1)
          | failed cause => rfl
          | delivered chunk =>
              by_cases empty : chunk = []
              · subst empty
                rfl
              rw [data_delivered empty, failure?_delivered empty, List.length_append]
              by_cases fits : chunk.length ≤ limit + 1
              · rw [collect_delivered_of_le empty fits]
                simp only [prepend, ih]
                by_cases reached : limit + 1 - chunk.length ≤ (data source).length
                · rw [if_pos reached, if_pos (by omega), List.take_append,
                    List.take_of_length_le fits]
                  rfl
                · rw [if_neg reached, if_neg (by omega)]
                  cases failure? source <;> rfl
              · rw [collect_delivered_of_lt (Nat.succ_pos _) (by omega), if_pos (by omega),
                  List.take_append_of_le_length (by omega)]

/-- If there is data up to the limit, the answer that reaches it is the last one
asked for, and what lies behind the limit stays unread. -/
theorem exists_last_read (limit : Nat) (source : ProgramSource) (positive : 0 < limit)
    (enough : limit ≤ source.data.length) :
    ∃ answered chunk rest later,
      source = answered ++ .delivered (chunk ++ rest) :: later ∧ chunk ≠ [] ∧
      data (answered ++ [.delivered chunk]) = source.data.take limit ∧
      (source.collect limit).2 = putBack rest later := by
  induction source generalizing limit with
  | nil =>
      simp only [data, List.length_nil] at enough
      omega
  | cons answer source ih =>
      cases answer with
      | interrupted =>
          obtain ⟨answered, chunk, rest, later, rfl, nonempty, taken, unread⟩ :=
            ih limit positive enough
          refine ⟨.interrupted :: answered, chunk, rest, later, rfl, nonempty, taken, ?_⟩
          rw [collect_interrupted positive]
          exact unread
      | failed cause =>
          simp only [data, List.length_nil] at enough
          omega
      | delivered first =>
          by_cases empty : first = []
          · subst empty
            simp only [data, List.isEmpty_nil, if_true, List.length_nil] at enough
            omega
          rw [data_delivered empty, List.length_append] at enough
          by_cases reached : limit ≤ first.length
          · have taken : (first.take limit).length = limit := by
              rw [List.length_take]
              omega
            have nonempty : first.take limit ≠ [] :=
              List.length_pos_iff.mp (by omega)
            refine ⟨[], first.take limit, first.drop limit, source, ?_, nonempty, ?_, ?_⟩
            · rw [List.take_append_drop]
              rfl
            · rw [List.nil_append, data_delivered nonempty, data_delivered empty,
                List.take_append_of_le_length reached]
              exact List.append_nil _
            · have apart := collect_delivered nonempty (Nat.le_of_eq taken)
                (first.drop limit) source
              rw [List.take_append_drop, taken, Nat.sub_self] at apart
              simp [apart, prepend, collect]
          · have fits : first.length ≤ limit := by omega
            obtain ⟨answered, chunk, rest, later, sourceEq, nonempty, taken, unread⟩ :=
              ih (limit - first.length) (by omega) (by omega)
            refine ⟨.delivered first :: answered, chunk, rest, later, ?_, nonempty, ?_, ?_⟩
            · rw [sourceEq]
              rfl
            · rw [List.cons_append, data_delivered empty, taken, data_delivered empty,
                List.take_append, List.take_of_length_le fits]
            · rw [collect_delivered_of_le empty fits]
              exact unread

theorem eq_of_read_interrupted (answered : source.read asked = (.interrupted, later)) :
    source = .interrupted :: later := by
  rcases source with _ | ⟨chunk | _ | cause, source⟩ <;> simp_all [read]

theorem eq_of_read_failed {cause : String}
    (answered : source.read asked = (.failed cause, unread)) :
    source = .failed cause :: unread := by
  rcases source with _ | ⟨chunk | _ | cause, source⟩ <;> simp_all [read]

theorem collect_of_read_nothing (positive : 0 < asked) (within : asked ≤ limit)
    (answered : source.read asked = (.delivered [], unread)) :
    source.collect limit = (.ok [], unread) := by
  obtain ⟨below, rfl⟩ := Nat.exists_eq_add_one.mpr (Nat.lt_of_lt_of_le positive within)
  rcases source with _ | ⟨chunk | _ | cause, source⟩
  · cases answered
    rfl
  · simp only [read, Prod.mk.injEq, ReadAnswer.delivered.injEq, List.take_eq_nil_iff] at answered
    obtain ⟨none | empty, rfl⟩ := answered
    · omega
    · subst empty
      simp [collect, putBack]
  · cases answered
  · cases answered

theorem eq_of_read_delivered (nonempty : first ≠ [])
    (answered : source.read asked = (.delivered first, unread)) :
    ∃ second later, source = .delivered (first ++ second) :: later ∧
      unread = putBack second later ∧ first.length ≤ asked := by
  rcases source with _ | ⟨chunk | _ | cause, source⟩
  · cases answered
    contradiction
  · simp only [read, Prod.mk.injEq, ReadAnswer.delivered.injEq] at answered
    obtain ⟨rfl, rfl⟩ := answered
    refine ⟨chunk.drop asked, source, ?_, rfl, List.length_take_le _ _⟩
    rw [List.take_append_drop]
  · cases answered
  · cases answered

/-- Reads that follow one another collect what is collected at once, whatever each of
them asks for. -/
theorem Reads.collect_eq (reads : Reads limit source result unread) :
    source.collect limit = (result, unread) := by
  induction reads with
  | full source => simp [collect]
  | ended positive within answered => exact collect_of_read_nothing positive within answered
  | @failed limit asked source unread cause positive within answered =>
      rw [eq_of_read_failed answered]
      cases limit with
      | zero => omega
      | succ limit => rfl
  | interrupted positive within answered reads ih =>
      rw [eq_of_read_interrupted answered, collect_interrupted (by omega), ih]
  | delivered positive within nonempty answered reads ih =>
      -- The read may have asked for the first bytes of an answer only.
      obtain ⟨second, later, rfl, rfl, short⟩ := eq_of_read_delivered nonempty answered
      rw [collect_delivered nonempty (by omega), ih]
      rfl

theorem reads_collect (limit : Nat) (source : ProgramSource) :
    Reads limit source (source.collect limit).1 (source.collect limit).2 := by
  induction source generalizing limit with
  | nil =>
      cases limit with
      | zero => exact .full []
      | succ limit => exact .ended (Nat.succ_pos _) (Nat.le_refl _) rfl
  | cons answer source ih =>
      by_cases full : limit = 0
      · subst full
        simp only [collect]
        exact .full _
      have positive : 0 < limit := Nat.pos_of_ne_zero full
      cases answer with
      | interrupted =>
          rw [collect_interrupted positive]
          exact .interrupted positive (Nat.le_refl _) rfl (ih limit)
      | failed cause =>
          obtain ⟨below, rfl⟩ := Nat.exists_eq_add_one.mpr positive
          exact .failed positive (Nat.le_refl _) rfl
      | delivered chunk =>
          by_cases empty : chunk = []
          · subst empty
            have answered : read limit (.delivered [] :: source) = (.delivered [], source) := by
              simp [read, putBack]
            rw [collect_of_read_nothing positive (Nat.le_refl _) answered]
            exact .ended positive (Nat.le_refl _) answered
          -- Everything that the limit leaves room for is asked for.
          have taken : chunk.take limit ≠ [] := by simp [full, empty]
          have answered : read limit (.delivered chunk :: source) =
            (.delivered (chunk.take limit), putBack (chunk.drop limit) source) := rfl
          by_cases fits : chunk.length ≤ limit
          · rw [collect_delivered_of_le empty fits]
            rw [List.take_of_length_le fits, List.drop_of_length_le fits] at answered
            exact .delivered positive (Nat.le_refl _) empty answered (ih _)
          · have length : (chunk.take limit).length = limit :=
              List.length_take_of_le (by omega)
            have reads : Reads (limit - (chunk.take limit).length)
                (putBack (chunk.drop limit) source) (.ok [])
                (putBack (chunk.drop limit) source) := by
              rw [length, Nat.sub_self]
              exact .full _
            rw [collect_delivered_of_lt positive (by omega)]
            simpa [Except.map] using
              Reads.delivered positive (Nat.le_refl _) taken answered reads

/-- Reads that follow one another up to a limit end in one way only, whatever each of
them asks for. -/
theorem reads_iff_collect (limit : Nat) (source : ProgramSource)
    (result : Except String (List UInt8)) (unread : ProgramSource) :
    Reads limit source result unread ↔ source.collect limit = (result, unread) := by
  constructor
  · exact Reads.collect_eq
  · intro collected
    have reads := reads_collect limit source
    rwa [collected] at reads

theorem delivers_append {one other : ProgramSource} (front : ProgramSource)
    (sameData : data one = data other) (sameFailure : failure? one = failure? other) :
    data (front ++ one) = data (front ++ other) ∧
      failure? (front ++ one) = failure? (front ++ other) := by
  induction front with
  | nil => exact ⟨sameData, sameFailure⟩
  | cons answer front ih =>
      obtain ⟨dataEq, failureEq⟩ := ih
      cases answer <;> simp [data, failure?, dataEq, failureEq]

end ProgramSource

namespace Machine

open ProgramSource

variable {source : ProgramSource}

theorem loadFrom_congr {other : ProgramSource} (machine : Machine)
    (sameData : data other = data source) (sameFailure : failure? other = failure? source) :
    machine.loadFrom other = machine.loadFrom source := by
  simp only [loadFrom, fst_collect, sameData, sameFailure]

theorem loadFrom_of_enough (machine : Machine)
    (enough : Memory.programCapacity < (data source).length) :
    machine.loadFrom source = ⟨.error (.oversized (Memory.programCapacity + 1)), machine, []⟩ := by
  have collected := fst_collect (Memory.programCapacity + 1) source
  rw [if_pos (Nat.succ_le_of_lt enough)] at collected
  have size : ((data source).take (Memory.programCapacity + 1)).toArray.size =
      Memory.programCapacity + 1 := by
    rw [List.size_toArray, List.length_take_of_le (Nat.succ_le_of_lt enough)]
  simp only [loadFrom, collected, load, size]
  rw [if_pos (Nat.lt_succ_self _)]

theorem loadFrom_of_failure {cause : String} (machine : Machine)
    (short : (data source).length ≤ Memory.programCapacity)
    (failed : failure? source = some cause) :
    machine.loadFrom source = ⟨.error (.unreadable cause), machine, []⟩ := by
  have collected := fst_collect (Memory.programCapacity + 1) source
  rw [if_neg (by omega), failed] at collected
  simp only [loadFrom, collected]

theorem loadFrom_of_ended (machine : Machine)
    (short : (data source).length ≤ Memory.programCapacity) (ended : failure? source = none) :
    machine.loadFrom source = machine.load (data source).toArray := by
  have collected := fst_collect (Memory.programCapacity + 1) source
  rw [if_neg (by omega), ended] at collected
  simp only [loadFrom, collected]

/-- A load from a source is a load of its data, in whatever pieces they come.  Nothing is
read behind the first byte that is too many, and a failure in front of that byte makes
the source unreadable. -/
theorem loadFrom_settled_by_data (machine : Machine) (source : ProgramSource) :
    let outcome := machine.loadFrom source
    (3585 ≤ (data source).length →
      outcome = ⟨.error (.tooLarge 3585 3584), machine, []⟩ ∧
      ∃ answered chunk rest later,
        source = answered ++ .delivered (chunk ++ rest) :: later ∧ chunk ≠ [] ∧
        data (answered ++ [.delivered chunk]) = (data source).take 3585 ∧
        (source.collect 3585).2 = putBack rest later) ∧
    ((data source).length < 3585 →
      (∀ cause, failure? source = some cause →
        outcome = ⟨.error (.unreadable cause), machine, []⟩) ∧
      (failure? source = none → outcome = machine.load (data source).toArray)) ∧
    (∀ result unread,
      Reads 3585 source result unread ↔ source.collect 3585 = (result, unread)) ∧
    (∀ other, data other = data source → failure? other = failure? source →
      machine.loadFrom other = outcome) ∧
    (∀ front piece rest back, piece ≠ [] → rest ≠ [] →
      source = front ++ .delivered (piece ++ rest) :: back →
        machine.loadFrom (front ++ .delivered piece :: .delivered rest :: back) = outcome) ∧
    (∀ front back, source = front ++ .interrupted :: back →
      machine.loadFrom (front ++ back) = outcome) ∧
    (LoadError.tooLarge 3585 3584).message =
      "ROM is too large (3585 bytes), max size is 3584 bytes" ∧
    ∀ log, Effect.outcome (Effect.loadFrom source) ⟨machine, log⟩ =
      (.ok outcome.value, ⟨outcome.machine, log ++ outcome.log⟩) := by
  intro outcome
  refine ⟨fun enough => ⟨machine.loadFrom_of_enough enough,
      exists_last_read 3585 source (by decide) enough⟩,
    fun short =>
      have fits := Nat.le_of_lt_succ short
      ⟨fun cause failed => machine.loadFrom_of_failure fits failed, machine.loadFrom_of_ended fits⟩,
    reads_iff_collect 3585 source,
    fun other sameData sameFailure => machine.loadFrom_congr sameData sameFailure,
    ?_, ?_, ?_, fun log => Effect.outcome_loadFrom ⟨machine, log⟩ source⟩
  · rintro front piece rest back nonempty more rfl
    have whole : piece ++ rest ≠ [] := List.append_ne_nil_of_left_ne_nil nonempty rest
    obtain ⟨sameData, sameFailure⟩ := delivers_append front
      (show data (.delivered piece :: .delivered rest :: back) =
          data (.delivered (piece ++ rest) :: back) by
        rw [data_delivered nonempty, data_delivered more, data_delivered whole,
          List.append_assoc])
      (by rw [failure?_delivered nonempty, failure?_delivered more, failure?_delivered whole])
    exact machine.loadFrom_congr sameData sameFailure
  · rintro front back rfl
    obtain ⟨sameData, sameFailure⟩ := delivers_append front
      (show data back = data (.interrupted :: back) from rfl) rfl
    exact machine.loadFrom_congr sameData sameFailure
  · rfl

/-- A source that delivers as much as is too large and fails afterwards is not
found to fail; one that fails right behind its data is. -/
theorem loadFrom_settled_by_data_at_failures :
    let machine := Machine.new {} (.cycle #[])
    let failing : ReadAnswer := .failed "device unplugged"
    (machine.loadFrom [.delivered (List.replicate 3585 0), failing]).value =
        .error (.tooLarge 3585 3584) ∧
      (machine.loadFrom [.delivered [0x60, 0x07], .interrupted, failing]).value =
        .error (.unreadable "device unplugged") := by
  intro machine failing
  constructor
  · have nonempty : List.replicate 3585 (0 : UInt8) ≠ [] :=
      List.length_pos_iff.mp (by rw [List.length_replicate]; decide)
    have enough : 3585 ≤ (data [.delivered (List.replicate 3585 0), failing]).length := by
      rw [data_delivered nonempty, List.length_append, List.length_replicate]
      exact Nat.le_add_right ..
    obtain ⟨settled, -⟩ := loadFrom_settled_by_data machine
      [.delivered (List.replicate 3585 0), failing]
    rw [(settled enough).1]
  · obtain ⟨-, settled, -⟩ := loadFrom_settled_by_data machine
      [.delivered [0x60, 0x07], .interrupted, failing]
    rw [(settled (by decide)).1 "device unplugged" (by decide)]

end Machine

end ChipEight
