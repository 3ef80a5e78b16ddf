import Augusta.Host.MatchRun
import Augusta.Networking.PeerTable
import Augusta.Harness.InboxRun
import Augusta.Harness.CommandStream
import Augusta.Host.CommandQueue
import Augusta.Harness.CommandRun
import Augusta.Harness.CommandDelivery
import Augusta.Capture.Records
import Augusta.Host.CaptureWriter
import Augusta.Host.Capturer
import Augusta.Host.CaptureRun
import Augusta.Host.CapturePipeline
import Augusta.Host.CaptureLaw
import Augusta.Lib.Fields
import Augusta.Protocol.Framing
import Augusta.Protocol.Readdress
import Augusta.Protocol.Canonical
import Augusta.Protocol.CaptureRecords
import Augusta.Capture.Frame
import Augusta.Lib.BigEndian
import Augusta.Link.CaptureRecords
import Augusta.Capture.File
import Augusta.Capture.Order
import Augusta.Capture.Reading
import Augusta.Capture.FileLaw
import Augusta.Lib.Arithmetic
import Augusta.Gameplay.Weapon
import Augusta.Math.Vec3
import Augusta.Physics.Movement
import Augusta.Prediction.Prediction
import Augusta.Harness.PredictedStream
import Augusta.Harness.PredictionLaw
import Augusta.Simulation.Player
import Augusta.Harness.Correction
import Augusta.Harness.CorrectionLaw
import Augusta.Simulation.Ledger
import Augusta.Lib.Keyed
import Augusta.Simulation.Account
import Augusta.Simulation.CombatLaw
import Augusta.Lib.Ring
import Augusta.Presentation.Interpolation
import Augusta.Presentation.Frames
import Augusta.Presentation.SeenLaw
import Augusta.Host.QueueRun
import Augusta.Link.CommandsLaw
import Augusta.Host.CaptureRetention
import Augusta.Host.RetentionLaw
import Augusta.Host.RetentionRun
import Augusta.Lib.Rounding
import Augusta.Math.Exact
import Augusta.Simulation.HitboxHistory
import Augusta.Simulation.LagCompensation
import Augusta.Harness.MatchCrossing
import Augusta.Link.TickWire
import Augusta.Link.Answers
import Augusta.Simulation.Replication
import Augusta.Host.TickMessages
import Augusta.Host.TickLaw
import Augusta.Assets.WireFormat
import Augusta.Assets.Content
import Augusta.Assets.Decoder
import Augusta.Assets.Encoder
import Augusta.Assets.RoundTrip
import Augusta.Assets.BlobLaw
import Augusta.Assets.Pack
import Augusta.Assets.PackLaw
import Augusta.Gameplay.Ballistics
import Augusta.Lib.Euclid
import Augusta.Simulation.HitboxPosing
import Augusta.Simulation.StrikeLaw
import Augusta.Simulation.Culling
import Augusta.Lib.Handles
import Augusta.Simulation.Bullets
import Augusta.Host.Misbehaviour
import Augusta.Simulation.BulletLaw
import Augusta.Gameplay.Timing
import Augusta.Lib.Countdown
import Augusta.Gameplay.RifleLaw
import Augusta.Gameplay.FireRate
import Augusta.Lib.Conversion
import Augusta.Simulation.HistoryLaw
import Augusta.Harness.Reenactment
import Augusta.Harness.PacerLaw
import Augusta.Harness.ReenactmentLaw
import Augusta.Assets.PackFile
import Augusta.Lib.Pace
import Augusta.Lib.RoundedSteps
import Augusta.Physics.Counters
import Augusta.Physics.PaceLaw
import Augusta.Policy.Answers
import Augusta.Policy.AnswersLaw
import Augusta.Policy.Policy
import Augusta.Simulation.PolicyLaw
import Augusta.Animation.Clips
import Augusta.Animation.Pose
import Augusta.Harness.PendingLaw
import Augusta.Animation.PoseLaw
import Augusta.Animation.Locomotion
import Augusta.Lib.Interpolation
import Augusta.Animation.LocomotionLaw
import Augusta.Harness.Intent
import Augusta.Harness.WalkLaw
import Augusta.Harness.IntentRun
import Augusta.Harness.IntentPlaces
import Augusta.Harness.IntentMoves
import Augusta.Harness.IntentLaw
import Augusta.Simulation.BulletRun
import Augusta.Host.PeerGate
import Augusta.Host.Impl
import Augusta.Host.Membership
import Augusta.Simulation.Presence
import Augusta.Host.HostRun
import Augusta.Host.Embodied
import Augusta.Host.HostLaw
import Augusta.Host.CaptureTape
import Augusta.Host.CaptureValues
import Augusta.Host.HostCaptures
import Augusta.Host.Rounds
import Augusta.Host.Replay
import Augusta.Host.Divergence
import Augusta.Host.ReplayRun
import Augusta.Host.ReplayDelay
import Augusta.Host.ReplayCatalog
import Augusta.Host.ViewerLaw
