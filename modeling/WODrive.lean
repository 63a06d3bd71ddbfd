import WODrive.Nvm.Commit
import WODrive.Nvm.PowerLoss
import WODrive.Nvm.Uncommitted
import WODrive.Nvm.Abandoned
import WODrive.Nvm.Window
import WODrive.LowLevel.Freshness
import WODrive.LowLevel.DeadTime
import WODrive.LowLevel.PulseInput
import WODrive.Fibre.Residue
import WODrive.Fibre.Soundness
import WODrive.Fibre.Channel
import WODrive.Fibre.Matching
import WODrive.Fibre.RemoteFunction
import WODrive.Fibre.Properties
import WODrive.Fibre.RemoteProperty
import WODrive.Fibre.HostDecoders
import WODrive.Fibre.HostCrc
import WODrive.Fibre.Serializer
import WODrive.Fibre.Varint
import WODrive.Fibre.Introspection
import WODrive.Fibre.Generator
import WODrive.Fibre.RequestDecoder
import WODrive.Hal.Subscriptions
import WODrive.Config.RoundTrip
import WODrive.Axis.Feedback
import WODrive.Axis.TaskChain
import WODrive.Axis.Homing
import WODrive.Axis.Watchdog
import WODrive.Encoder.Reference
import WODrive.Encoder.Linear
import WODrive.Encoder.Coherence
import WODrive.Encoder.Estimator
import WODrive.Motor.FocCurrent
import WODrive.Motor.PowerStage
import WODrive.Motor.Update
import WODrive.Trajectory.Plan
import WODrive.Controller.Calibration
import WODrive.Ascii.Channels
import WODrive.Ascii.Assembly
import WODrive.Ascii.PropertyText
import WODrive.Can.Addressing
import WODrive.Can.Signal
import WODrive.Can.Drained
import WODrive.Can.Heartbeats
import WODrive.Hmi.DrawLine
