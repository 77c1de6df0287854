import ChipEight.Machine.Call
import ChipEight.Main
import ChipEight.Proofs.Bounds
import ChipEight.Proofs.InPlace.Agreement
import ChipEight.Texture
import ChipEight.Proofs.InPlace.Calls
import ChipEight.Proofs.Safety
import ChipEight.Proofs.FaultAtomicity
import ChipEight.Proofs.Presentation
import ChipEight.Proofs.Rewinding
import ChipEight.Proofs.Session.Delivery
import ChipEight.Proofs.Session.Turns
import ChipEight.Proofs.Session.HeldKeys
import ChipEight.Proofs.Session.ShownPicture
import ChipEight.Proofs.Refusal
import ChipEight.Proofs.Session.Halting
import ChipEight.Proofs.Replaying
import ChipEight.Proofs.Nesting
import ChipEight.Proofs.Decoding
import ChipEight.Proofs.Restarting
import ChipEight.Proofs.RandomDraws
import ChipEight.Proofs.Session.Tone
import ChipEight.Proofs.Session.OtherSpeaker
import ChipEight.Proofs.Footprint
import ChipEight.Proofs.Tracing
import ChipEight.Proofs.Interleaving
import ChipEight.Proofs.Session.EffectiveEvents
import ChipEight.Proofs.FaultCauses
import ChipEight.Proofs.Overlaying
import ChipEight.Proofs.Confinement
import ChipEight.Proofs.ControlFlow
import ChipEight.Proofs.Calculation
import ChipEight.Proofs.Reading
import ChipEight.Proofs.Transfer
import ChipEight.Proofs.Waiting
import ChipEight.Proofs.Assembling
import ChipEight.Proofs.Disassembly
import ChipEight.Proofs.Waveform
import ChipEight.Proofs.Texturing
