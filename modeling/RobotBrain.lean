import RobotBrain.Brain.Refinement
import RobotBrain.Safety.JointEnvelope
import RobotBrain.Safety.JointRate
import RobotBrain.Safety.PolicyMemory
import RobotBrain.Safety.EmergencyStop
import RobotBrain.Safety.VelocityJump
import RobotBrain.Safety.Contamination
import RobotBrain.Safety.Preemption
import RobotBrain.Safety.Fallback
import RobotBrain.Safety.Snapshot
import RobotBrain.Sim.StartGate
import RobotBrain.Safety.Gate
import RobotBrain.Infra.ThreadPool
import RobotBrain.Infra.QueueDiscipline
import RobotBrain.Rpc.Lifecycle
import RobotBrain.Safety.FallbackFinal
import RobotBrain.Safety.Accounting
import RobotBrain.Sim.GaitClock
import RobotBrain.Sim.Measured
import RobotBrain.Safety.ObservationLayout
import RobotBrain.Sim.FallReset
import RobotBrain.Rpc.Report
import RobotBrain.Infra.Shutdown
import RobotBrain.Safety.VelocityRamp
import RobotBrain.Sim.ProjectedGravity
import RobotBrain.Realtime.Jitter
import RobotBrain.Realtime.Schedule
import RobotBrain.Infra.BufferPool
import RobotBrain.Safety.FallDebounce
import RobotBrain.Safety.TeardownOrder
import RobotBrain.Infra.Progress
import RobotBrain.Safety.Quiescence
import RobotBrain.Brain.Serial
import RobotBrain.Client.Keyboard
import RobotBrain.Safety.Provenance
import RobotBrain.Safety.Heartbeat
import RobotBrain.Library.Except
import RobotBrain.Infra.ConfigFile
import RobotBrain.Infra.Executor
import RobotBrain.Sim.Torque
import RobotBrain.Sim.Episodes
import RobotBrain.Realtime.Lateness
import RobotBrain.Sim.JointMapping
import RobotBrain.Sim.Lockstep
import RobotBrain.Rpc.StatusRate
import RobotBrain.Safety.BufferReuse
import RobotBrain.Brain.PoolRefinement
import RobotBrain.Safety.PooledQuiescence
