import PetlibroLocal.Camera.AckReceive
import PetlibroLocal.Camera.AckRun
import PetlibroLocal.Camera.FrameOrigin
import PetlibroLocal.Camera.HandOff
import PetlibroLocal.Camera.StrictInterleaving
import PetlibroLocal.Camera.GopPoisoning
import PetlibroLocal.Camera.LossyInter
import PetlibroLocal.Camera.Timestamps
import PetlibroLocal.Feeder.WriteTargets
import PetlibroLocal.Feeder.VerifiedReads
import PetlibroLocal.Feeder.Availability
import PetlibroLocal.Feeder.WriteQueue
import PetlibroLocal.Supervisor.CrashSafety
import PetlibroLocal.Supervisor.Probation
import PetlibroLocal.Supervisor.ServiceRestart
import PetlibroLocal.Updates.UpdateFrame
import PetlibroLocal.Agent.StagingSafety
import PetlibroLocal.Feeder.PlanDisplay
import PetlibroLocal.Feeder.DispensingFreshness
import PetlibroLocal.Feeder.PlanRenaming
import PetlibroLocal.Feeder.Transitions
import PetlibroLocal.Updates.StatusPolling
import PetlibroLocal.Updates.ManifestInclusion
import PetlibroLocal.Release.Manifest
import PetlibroLocal.Agent.Revisions
import PetlibroLocal.Discovery.SingleFlight
import PetlibroLocal.Render.RenderedNames
import PetlibroLocal.Agent.RequestSegments
import PetlibroLocal.Installer.CrashSafety
