import Fnvmp.Timeliness
import Fnvmp.Restraint
import Fnvmp.SneakTransitions
import Fnvmp.UnrestrainWindow
import Fnvmp.GhostAvatars
import Fnvmp.SampleOrder
import Fnvmp.Lifecycle
import Fnvmp.WeaponCache
import Fnvmp.Locomotion
import Fnvmp.UpperBody
import Fnvmp.HangingAngles
import Fnvmp.LostRefs
import Fnvmp.HealthyLink
import Fnvmp.OtherCells
import Fnvmp.FireRuns
import Fnvmp.Reception
import Fnvmp.SneakActions
import Fnvmp.FreezeJump
import Fnvmp.SendRate
import Fnvmp.FailedPolls
import Fnvmp.Heading
import Fnvmp.Sweep
import Fnvmp.ShortestArc
import Fnvmp.CatchUp
import Fnvmp.Provenance
import Fnvmp.OnlineShots
import Fnvmp.Hosting
import Fnvmp.ClientHost
import Fnvmp.BroadcastClock
import Fnvmp.PluginLife
import Fnvmp.StoredLink
