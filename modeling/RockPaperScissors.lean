import RockPaperScissors.Library.BoundedFifo
import RockPaperScissors.Library.CountedLoop
import RockPaperScissors.Library.DiscreteFourier
import RockPaperScissors.Library.EventHistory
import RockPaperScissors.Library.GaussianModulus
import RockPaperScissors.Library.IndependentPasses
import RockPaperScissors.Library.LabelledRun
import RockPaperScissors.Library.SignedWord
import RockPaperScissors.Library.StateProgram
import RockPaperScissors.Library.StrictMinimum
import RockPaperScissors.Library.Tokenizer
import RockPaperScissors.Library.WarpingPath
import RockPaperScissors.MfccMatcher
import RockPaperScissors.DynamicTimeWarping
import RockPaperScissors.SampleNormalization
import RockPaperScissors.MelCoefficients
import RockPaperScissors.ReferenceFile
import RockPaperScissors.WordDecision
import RockPaperScissors.AlteraSdCard
import RockPaperScissors.SdCardRelations
import RockPaperScissors.SdCardSession
import RockPaperScissors.SdCardRecognition
import RockPaperScissors.SdCardListing
import RockPaperScissors.SdCardHandles
import RockPaperScissors.SdCardLeaks
import RockPaperScissors.RecordLoop
import RockPaperScissors.CalculateMfcc
import RockPaperScissors.ReferenceStores
import RockPaperScissors.FrameSplitting
import RockPaperScissors.RecordingOrigin
import RockPaperScissors.RecordingGate
import RockPaperScissors.RecordedPairs
import RockPaperScissors.KeyHandling
import RockPaperScissors.AudioCore
import RockPaperScissors.FilledReads
import RockPaperScissors.AlignedReads
import RockPaperScissors.MicrophoneInput
import RockPaperScissors.MicrophoneClocking
import RockPaperScissors.MicrophoneBounds
import RockPaperScissors.MicrophoneRestart
import RockPaperScissors.MicrophoneTrigger
import RockPaperScissors.MicrophonePacing
import RockPaperScissors.MicrophoneDuration
import RockPaperScissors.Butterfly
import RockPaperScissors.KissFft
import RockPaperScissors.KissFftButterflies
import RockPaperScissors.KissFftFactors
import RockPaperScissors.KissFftTransform
import RockPaperScissors.KissFftRoundTrip
import RockPaperScissors.FrameTransform
import RockPaperScissors.KissFftFastSize
import RockPaperScissors.MelCepstrum
import RockPaperScissors.SdCardContents
import RockPaperScissors.SdCardDirectory
import RockPaperScissors.ReferenceRefinement
import RockPaperScissors.SdCardReference
import RockPaperScissors.SdCardNames
import RockPaperScissors.SdCardEnumeration
import RockPaperScissors.AudioSubsystem
import RockPaperScissors.AudioRefinement
import RockPaperScissors.DeliveredSamples
import RockPaperScissors.Library.ShiftRegister
import RockPaperScissors.SerialFrames
import RockPaperScissors.SerialLoopback
import RockPaperScissors.CharacterLcd
import RockPaperScissors.CharacterLcdTransfers
import RockPaperScissors.CharacterLcdPowerUp
