import ChipEight.Proofs.Session.OtherSpeaker

/-!
# The tone of a session

A speaker passes on the changes of what it is told, so that its device is
resumed and paused in turn.  What it is told in a turn depends on the machine and
on the modes of the session alone, and nothing in a session depends on its
speaker: with and without a device, sessions that receive the same events go
through the same machines and show the same pictures.
-/

namespace ChipEight

namespace ToneSignal

/-- Signals that resume and pause a device in turn. -/
def Alternate (signals : List ToneSignal) : Prop :=
  ∀ position : Fin signals.length,
    signals[position] = if position.val % 2 = 0 then .resume else .pause

variable {signals : List ToneSignal}

theorem Alternate.nil : Alternate [] := by
  intro position
  exact position.elim0

theorem Alternate.snoc (alternate : Alternate signals) :
    Alternate (signals ++ [if signals.length % 2 = 0 then .resume else .pause]) := by
  rintro ⟨position, inside⟩
  rw [List.length_append, List.length_singleton] at inside
  rcases Nat.lt_or_eq_of_le (Nat.le_of_lt_succ inside) with earlier | rfl
  · exact (List.getElem_append_left earlier).trans (alternate ⟨position, earlier⟩)
  · exact List.getElem_concat_length rfl _

/-- The device plays if it was resumed once more than it was paused. -/
theorem Alternate.getLast?_eq_resume_iff (alternate : Alternate signals) :
    signals.getLast? = some .resume ↔ signals.length % 2 = 1 := by
  cases length : signals.length with
  | zero =>
      rw [List.eq_nil_of_length_eq_zero length]
      simp
  | succ last =>
      have inside : last < signals.length := by omega
      have found : signals[last] = if last % 2 = 0 then .resume else .pause :=
        alternate ⟨last, inside⟩
      rw [List.getLast?_eq_getElem?, length, Nat.add_sub_cancel, List.getElem?_eq_getElem inside,
        Option.some.injEq, found]
      split
      · simp only [true_iff]
        omega
      · simp only [reduceCtorEq, false_iff]
        omega

end ToneSignal

namespace Speaker

/-- The speaker has told its device the given signals, in order, and knows
whether the device is playing after them. -/
def Drives : Speaker → List ToneSignal → Prop
  | silent, signals => signals = []
  | tone playing, signals =>
    ToneSignal.Alternate signals ∧ (playing = true ↔ signals.getLast? = some .resume)

variable {speaker : Speaker} {signals : List ToneSignal}

theorem setActive_tone (active playing : Bool) :
    ((tone playing).setActive active).1 = tone active := by
  simp only [setActive]
  split
  · rename_i same
    rw [same]
  · rfl

theorem Drives.setActive (drives : speaker.Drives signals) (active : Bool) :
    (speaker.setActive active).1.Drives (signals ++ (speaker.setActive active).2) := by
  cases speaker with
  | silent =>
      rw [show signals = [] from drives]
      rfl
  | tone playing =>
      obtain ⟨alternate, playingIff⟩ := drives
      by_cases same : active = playing
      · simp only [Speaker.setActive, if_pos same, List.append_nil]
        exact ⟨alternate, playingIff⟩
      · simp only [Speaker.setActive, if_neg same]
        have signalEq : (if active then ToneSignal.resume else .pause) =
            if signals.length % 2 = 0 then .resume else .pause := by
          rw [alternate.getLast?_eq_resume_iff] at playingIff
          cases active <;> cases playing <;> simp_all
        constructor
        · rw [signalEq]
          exact alternate.snoc
        · rw [List.getLast?_concat]
          cases active <;> simp

theorem device?_setActive (active : Bool) (speaker : Speaker) :
    (speaker.setActive active).1.device? = speaker.device? := by
  cases speaker with
  | silent => rfl
  | tone playing =>
      rw [setActive_tone]
      rfl

theorem Drives.signals_eq_nil (drives : speaker.Drives signals)
    (deviceless : speaker.device? = none) : signals = [] := by
  cases speaker with
  | silent => exact drives
  | tone playing => cases deviceless

theorem Drives.alternate (drives : speaker.Drives signals) : ToneSignal.Alternate signals := by
  cases speaker with
  | silent =>
      rw [show signals = [] from drives]
      exact .nil
  | tone playing => exact drives.1

end Speaker

namespace Session

theorem rewinding_update (session : Session) (cycles : Nat) :
    (session.update cycles).1.rewinding = session.rewinding := by
  unfold update
  split
  · rfl
  · split <;> rfl

end Session

namespace PlayedTurn

theorem speaker_after (turn : PlayedTurn) :
    turn.after.speaker = (turn.before.speaker.setActive
      (turn.before.toneWanted turn.cycles turn.events)).1 :=
  congrArg (·.session.speaker)
    (turn.before.play_withSpeaker turn.before.speaker turn.cycles turn.events)

theorem tone_eq (turn : PlayedTurn) :
    turn.outcome.turn.tone = (turn.before.speaker.setActive
      (turn.before.toneWanted turn.cycles turn.events)).2 :=
  congrArg (·.turn.tone)
    (turn.before.play_withSpeaker turn.before.speaker turn.cycles turn.events)

theorem drives_after {turn : PlayedTurn} {signals : List ToneSignal}
    (drives : turn.before.speaker.Drives signals) :
    turn.after.speaker.Drives (signals ++ turn.outcome.turn.tone) := by
  rw [speaker_after, tone_eq]
  exact drives.setActive _

theorem machine_update {turn : PlayedTurn} (continues : turn.outcome.continues = true) :
    (turn.received.update turn.cycles).1.machine = turn.updated := by
  rw [(turn.received.update_eq_conversation turn.cycles).1, machine_received, updated, updating,
    if_pos continues, Machine.performAll_append]

theorem halted_update {turn : PlayedTurn} (continues : turn.outcome.continues = true) :
    (turn.received.update turn.cycles).1.halted = turn.after.halted := by
  rw [continues_eq] at continues
  exact (Session.play_of_goesOn turn.cycles continues).2.1.symm

/-- A turn that goes on wants the tone to sound if it neither rewinds nor is
halted and the sound timer is running after its update.  A turn in which the
session ends does not want it. -/
theorem toneWanted_iff (turn : PlayedTurn) :
    turn.before.toneWanted turn.cycles turn.events = true ↔
      turn.outcome.continues = true ∧ turn.received.rewinding = false ∧
        turn.after.halted = false ∧ 0 < turn.updated.state.soundTimer := by
  rw [Session.toneWanted, Bool.and_eq_true, ← continues_eq]
  apply and_congr_right
  intro continues
  rw [← halted_update continues, ← machine_update continues,
    ← turn.received.rewinding_update turn.cycles]
  simp only [received, Session.toneActive, State.soundActive, Bool.and_eq_true, Bool.not_eq_true',
    decide_eq_true_eq]
  rw [and_assoc, and_left_comm]

end PlayedTurn

namespace Session

/-- A speaker that has told its device nothing yet knows in every turn whether
the device is playing. -/
theorem drives_turns {session : Session} {cycles : Nat} {script : List (List Event)}
    (drives : session.speaker.Drives []) {earlier later : List PlayedTurn} {turn : PlayedTurn}
    (played : session.turns cycles script = earlier ++ turn :: later) :
    turn.after.speaker.Drives ((earlier ++ [turn]).flatMap (·.outcome.turn.tone)) := by
  rw [List.flatMap_append, List.flatMap_singleton]
  apply PlayedTurn.drives_after
  apply invariant_turns
    (fun turns session => session.speaker.Drives (turns.flatMap (·.outcome.turn.tone))) drives ?_
    played
  intro turns turn _ _ drives
  rw [List.flatMap_append, List.flatMap_singleton]
  exact PlayedTurn.drives_after drives

theorem device?_turns {session : Session} {cycles : Nat} {script : List (List Event)}
    {earlier later : List PlayedTurn} {turn : PlayedTurn}
    (played : session.turns cycles script = earlier ++ turn :: later) :
    turn.before.speaker.device? = session.speaker.device? := by
  apply invariant_turns (fun _ later => later.speaker.device? = session.speaker.device?) rfl ?_
    played
  intro turns turn _ _ same
  rw [turn.speaker_after, Speaker.device?_setActive]
  exact same

theorem signals_eq_nil_of_deviceless {session : Session} {cycles : Nat}
    {script : List (List Event)} (drives : session.speaker.Drives [])
    (deviceless : session.speaker.device? = none) {earlier later : List PlayedTurn}
    {turn : PlayedTurn} (played : session.turns cycles script = earlier ++ turn :: later) :
    (earlier ++ [turn]).flatMap (·.outcome.turn.tone) = [] := by
  apply (drives_turns drives played).signals_eq_nil
  rw [turn.speaker_after, Speaker.device?_setActive, device?_turns played, deviceless]

theorem playing_after_turn {session : Session} {cycles : Nat} {script : List (List Event)}
    (drives : session.speaker.Drives []) (device : session.speaker.device?.isSome = true)
    {earlier later : List PlayedTurn} {turn : PlayedTurn}
    (played : session.turns cycles script = earlier ++ turn :: later) :
    ((earlier ++ [turn]).flatMap (·.outcome.turn.tone)).getLast? = some .resume ↔
      turn.outcome.continues = true ∧ turn.received.rewinding = false ∧
        turn.after.halted = false ∧ 0 < turn.updated.state.soundTimer := by
  have known := drives_turns drives played
  rw [← device?_turns played] at device
  rw [← turn.toneWanted_iff]
  cases speakerEq : turn.before.speaker with
  | silent =>
      rw [speakerEq] at device
      cases device
  | tone playing =>
      rw [turn.speaker_after, speakerEq, Speaker.setActive_tone] at known
      exact known.2.symm

variable {host : Host} {options : Options} {machine : Machine} {opening : Opening}

theorem speaker_of_launch (opened : launch host options machine = .ok opening) :
    opening.session.speaker = .silent ∨ opening.session.speaker = .tone false := by
  obtain ⟨window, -, rfl⟩ := launch_eq_ok_iff.mp opened
  simp only [openIn, Speaker.openOn]
  split
  · exact Or.inl rfl
  · split
    · exact Or.inl rfl
    · exact Or.inr rfl

theorem drives_of_launch (opened : launch host options machine = .ok opening) :
    opening.session.speaker.Drives [] := by
  rcases speaker_of_launch opened with silent | paused
  · rw [silent]
    rfl
  · rw [paused]
    exact ⟨.nil, by simp⟩

theorem tone_of_launch (opened : launch host options machine = .ok opening) :
    opening.turn.tone = [] := by
  obtain ⟨window, -, rfl⟩ := launch_eq_ok_iff.mp opened
  rfl

/-- The turns that a session has played by some time leave a speaker that knows
whether the device is playing. -/
theorem exists_drives_of_turns {session : Session} {cycles : Nat} {script : List (List Event)}
    (drives : session.speaker.Drives []) {done later : List PlayedTurn}
    (played : session.turns cycles script = done ++ later) :
    ∃ speaker : Speaker, speaker.Drives (done.flatMap (·.outcome.turn.tone)) ∧
      speaker.device? = session.speaker.device? := by
  rcases List.eq_nil_or_concat done with rfl | ⟨earlier, turn, rfl⟩
  · exact ⟨session.speaker, drives, rfl⟩
  · rw [List.concat_eq_append, List.append_assoc, List.singleton_append] at played
    refine ⟨turn.after.speaker, ?_, ?_⟩
    · rw [List.concat_eq_append]
      exact drives_turns drives played
    · rw [turn.speaker_after, Speaker.device?_setActive, device?_turns played]

theorem getLast?_tone_of_ended {session : Session} {cycles : Nat} {script : List (List Event)}
    (drives : session.speaker.Drives []) {earlier : List PlayedTurn} {turn : PlayedTurn}
    (played : session.turns cycles script = earlier ++ [turn])
    (ended : turn.outcome.continues = false) :
    ((earlier ++ [turn]).flatMap (·.outcome.turn.tone)).getLast? ≠ some .resume := by
  cases found : session.speaker.device? with
  | none =>
      rw [signals_eq_nil_of_deviceless drives found played]
      simp
  | some device =>
      have isSome : session.speaker.device?.isSome = true := by
        rw [found]
        rfl
      rw [ne_eq, playing_after_turn drives isSome played, ended]
      simp

theorem signals_of_run (opened : launch host options machine = .ok opening)
    (script : List (List Event)) :
    let transcript := run host options machine script
    let signals := transcript.turns.flatMap (·.tone)
    ToneSignal.Alternate signals ∧ (opening.session.speaker.device? = none → signals = []) ∧
      (host.events.Timely → transcript.error = none → signals.getLast? ≠ some .resume) := by
  intro transcript signals
  have drives := drives_of_launch opened
  obtain ⟨done, later, played, toneEq, unbroken⟩ := tone_run opened script
  have signalsEq : signals = done.flatMap (·.outcome.turn.tone) := by
    rw [tone_of_launch opened, List.nil_append] at toneEq
    exact toneEq
  obtain ⟨speaker, drivesDone, sameDevice⟩ := exists_drives_of_turns drives played
  rw [signalsEq]
  refine ⟨drivesDone.alternate, ?_, ?_⟩
  · intro deviceless
    exact drivesDone.signals_eq_nil (sameDevice.trans deviceless)
  · intro timely errorless
    obtain ⟨events, member, closes⟩ :=
      timely.exists_mem_deliver opening.queue script .closed
    have ends : events.any Event.ends = true := List.any_eq_true.mpr ⟨.closed, closes, rfl⟩
    obtain ⟨earlier, turn, lastEq, ended⟩ :=
      opening.session.exists_last_turn options.cyclesPerTurn ⟨events, member, ends⟩
    have doneEq : done = earlier ++ [turn] := by
      rw [← lastEq, ← List.append_nil done, ← unbroken errorless]
      exact played.symm
    rw [doneEq]
    exact getLast?_tone_of_ended drives lastEq ended

/-- A session follows its machine with the tone: a device is resumed and paused in
turn, plays after a turn exactly if the machine sounds and is executing, and is
paused in the end.  Nothing but the tone depends on the speaker. -/
theorem tone_follows_machine (opened : launch host options machine = .ok opening) :
    (∀ {script : List (List Event)} {earlier later : List PlayedTurn} {turn : PlayedTurn},
      opening.session.turns options.cyclesPerTurn script = earlier ++ turn :: later →
      let signals := (earlier ++ [turn]).flatMap (·.outcome.turn.tone)
      ToneSignal.Alternate signals ∧
        (opening.session.speaker.device? = none → signals = []) ∧
        (opening.session.speaker.device?.isSome = true →
          (signals.getLast? = some .resume ↔
            turn.outcome.continues = true ∧ turn.received.rewinding = false ∧
              turn.after.halted = false ∧ 0 < turn.updated.state.soundTimer))) ∧
      (∀ script : List (List Event),
        let transcript := run host options machine script
        let signals := transcript.turns.flatMap (·.tone)
        ToneSignal.Alternate signals ∧ (transcript.audio = none → signals = []) ∧
          (host.events.Timely → transcript.error = none → signals.getLast? ≠ some .resume) ∧
          (host.Presents → transcript.error = none)) ∧
      ∀ (missingAudio : Option String) (muted : Bool),
        let otherHost := { host with missingAudio }
        let otherOptions := { options with muted }
        ∃ other, launch otherHost otherOptions machine = .ok other ∧
          other.turn.shown = opening.turn.shown ∧
          (∀ {first second : List (List Event)}, first.map noticed = second.map noticed →
            (other.session.turns options.cyclesPerTurn first).map PlayedTurn.view =
              (opening.session.turns options.cyclesPerTurn second).map PlayedTurn.view) ∧
          ∀ {script : List (List Event)}, host.events.UnmovedByAudio (script ++ [[.closed]]) →
            (run otherHost otherOptions machine script).turns.map Turn.shown =
              (run host options machine script).turns.map Turn.shown := by
  refine ⟨?_, ?_, ?_⟩
  · intro script earlier later turn played signals
    have drives := drives_of_launch opened
    refine ⟨(drives_turns drives played).alternate, ?_, ?_⟩
    · intro deviceless
      exact signals_eq_nil_of_deviceless drives deviceless played
    · intro device
      exact playing_after_turn drives device played
  · intro script transcript signals
    obtain ⟨alternate, silent, paused⟩ := signals_of_run opened script
    have transcriptEq : transcript = _ := run_eq opened script
    refine ⟨alternate, ?_, paused, ?_⟩
    · rw [transcriptEq]
      exact silent
    · intro presents
      rw [transcriptEq, Host.presentAll_of_presents presents]
  · intro missingAudio muted otherHost otherOptions
    obtain ⟨other, otherwise, sameSession, sameShown⟩ := exists_launch opened missingAudio muted
    refine ⟨other, otherwise, sameShown, ?_, ?_⟩
    · intro first second same
      rw [sameSession]
      exact opening.session.view_turns_withSpeaker _ _ same
    · intro script unmoved
      exact shown_run_of_launch opened otherwise sameSession sameShown unmoved

theorem update_of_executed {session : Session} (onward : session.rewinding = false)
    (running : session.halted = false) {first second : Word} {middle last : State}
    (firstFetched : session.machine.state.fetch = .ok first)
    (firstExecuted : first.execute session.machine.config.dialect session.machine.random.byte
      session.machine.state = .ok middle)
    (secondFetched : middle.fetch = .ok second)
    (secondExecuted : ∀ byte, second.execute session.machine.config.dialect byte middle =
      .ok last) :
    (session.update 2).1.halted = false ∧
      (session.update 2).1.machine.state.soundTimer = last.tick.soundTimer := by
  have started := Machine.step_of_executed firstFetched firstExecuted
  have stepped := @Machine.step_of_executed (session.machine.advance first middle) second last
    secondFetched (secondExecuted _)
  simp only [update, onward, running, Bool.false_eq_true, if_false, Machine.runCycles, started,
    stepped]
  exact ⟨rfl, rfl⟩

theorem soundTimer_update {session : Session} {program : Array UInt8}
    (stateEq : session.machine.state = .boot program)
    (onward : session.rewinding = false) (running : session.halted = false)
    (loadHigh : program[0]? = some 0x60) (loadLow : program[1]? = some 0x05)
    (setHigh : program[2]? = some 0xF0) (setLow : program[3]? = some 0x18) :
    (session.update 2).1.halted = false ∧
      (session.update 2).1.machine.state.soundTimer = 4 := by
  let loaded := (State.boot program).next.setRegister 0 5
  have loading : session.machine.state.fetch = .ok 0x6005 := by
    rw [stateEq]
    exact State.fetch_boot loadHigh loadLow
  have load : Word.execute 0x6005 session.machine.config.dialect session.machine.random.byte
      session.machine.state = .ok loaded := by
    rw [stateEq]
    rfl
  have inside : 2 + 1 < Memory.programCapacity := by decide
  have holds : loaded.memory = .image program := rfl
  have counter : loaded.pc = 0x202 := rfl
  have setting : loaded.fetch = .ok 0xF018 :=
    State.fetch_of_image holds (congrArg UInt16.toNat counter) inside setHigh setLow
  have set : ∀ byte, Word.execute 0xF018 session.machine.config.dialect byte loaded =
      .ok { loaded.next with soundTimer := loaded.register 0 } := fun byte => rfl
  have updated := update_of_executed onward running loading load setting set
  exact ⟨updated.1, updated.2⟩

/-- A program that starts the sound timer. -/
def sounding : Machine :=
  ((Machine.new {} (.cycle #[])).load #[0x60, 0x05, 0xF0, 0x18]).machine

/-- The turn that starts the sound timer resumes the device, which is paused when the
window is closed, on both hosts.  A polled host without a device shows the same. -/
theorem tone_follows_machine_sounding :
    let options : Options := { title := "", cyclesPerTurn := 2, scale := 1 }
    let turn : PlayedTurn := ⟨{ machine := sounding, speaker := .tone false }, 2, []⟩
    ∃ opening, launch .polling options sounding = .ok opening ∧
      opening.session.turns 2 [[]] = [] ++ turn :: [] ∧
      turn.outcome.turn.tone.getLast? = some .resume ∧
      ((run {} options sounding [[]]).turns.flatMap (·.tone)).getLast? ≠ some .resume ∧
      ((run .polling options sounding [[]]).turns.flatMap (·.tone)).getLast? ≠ some .resume ∧
      (run { Host.polling with missingAudio := some "" } options sounding [[]]).turns.map
          Turn.shown =
        (run .polling options sounding [[]]).turns.map Turn.shown := by
  intro options turn
  have found : Window.openOn .polling options = .ok ⟨"", 64, 32⟩ := rfl
  have opened : launch .polling options sounding = .ok (openIn .polling options sounding _) :=
    launch_eq_ok_iff.mpr ⟨_, found, rfl⟩
  have foundPromptly : Window.openOn {} options = .ok ⟨"", 64, 32⟩ := rfl
  have openedPromptly : launch {} options sounding = .ok (openIn {} options sounding _) :=
    launch_eq_ok_iff.mpr ⟨_, foundPromptly, rfl⟩
  have played : turn.before.turns 2 [[]] = [] ++ turn :: [] := turns_singleton turn.before 2 []
  have continues : turn.outcome.continues = true := turn.continues_eq
  have first : #[(0x60 : UInt8), 0x05, 0xF0, 0x18][0]? = some 0x60 := rfl
  have second : #[(0x60 : UInt8), 0x05, 0xF0, 0x18][1]? = some 0x05 := rfl
  have third : #[(0x60 : UInt8), 0x05, 0xF0, 0x18][2]? = some 0xF0 := rfl
  have fourth : #[(0x60 : UInt8), 0x05, 0xF0, 0x18][3]? = some 0x18 := rfl
  have loaded : sounding.state = .boot #[0x60, 0x05, 0xF0, 0x18] := rfl
  obtain ⟨running, timer⟩ := @soundTimer_update turn.received #[0x60, 0x05, 0xF0, 0x18] loaded rfl
    rfl first second third fourth
  have halted : turn.after.halted = false := by
    rw [← PlayedTurn.halted_update continues]
    exact running
  have sounds : 0 < turn.updated.state.soundTimer := by
    rw [← PlayedTurn.machine_update continues, timer]
    decide
  obtain ⟨turnsKnown, runKnown, otherwise⟩ := tone_follows_machine opened
  have playing := ((turnsKnown played).2.2 rfl).mpr ⟨continues, rfl, halted, sounds⟩
  obtain ⟨-, -, paused, errorless⟩ := runKnown [[]]
  obtain ⟨-, -, pausedPromptly, errorlessPromptly⟩ :=
    (tone_follows_machine openedPromptly).2.1 [[]]
  have unmoved : EventSource.polled.UnmovedByAudio ([[]] ++ [[.closed]]) :=
    EventSource.polled.unmovedByAudio (by simp)
  obtain ⟨-, -, -, -, sameShown⟩ := otherwise (some "") false
  refine ⟨_, opened, played, ?_, ?_, ?_, ?_⟩
  · rw [List.nil_append, List.flatMap_singleton] at playing
    exact playing
  · exact pausedPromptly EventSource.prompt.timely (errorlessPromptly fun _ => rfl)
  · exact paused EventSource.polled.timely (errorless fun _ => rfl)
  · exact sameShown unmoved

end Session

end ChipEight
