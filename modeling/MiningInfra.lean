import MiningInfra.Payout.Watermark
import MiningInfra.Payout.Archive
import MiningInfra.Payout.Flush
import MiningInfra.Payout.Restart
import MiningInfra.Jd.Commitments
import MiningInfra.Jd.Verdicts
import MiningInfra.Jd.Drained
import MiningInfra.Jd.TemplateBuilder
import MiningInfra.Jd.KnownTxids
import MiningInfra.Pool.Sequence
import MiningInfra.Pool.WorkerCap
import MiningInfra.Pool.NonceSpace
import MiningInfra.Pool.FoundBlock
import MiningInfra.Mining.Readers
import MiningInfra.Noise.Session
import MiningInfra.Relay.Interference
import MiningInfra.Relay.Rotation
import MiningInfra.Relay.Forged
import MiningInfra.Relay.Decoding
import MiningInfra.Relay.StatedTarget
import MiningInfra.Relay.Mac
import MiningInfra.Ingress.Boundaries
import MiningInfra.Ingress.Settling
import MiningInfra.Ingress.Wire
import MiningInfra.Sidecar.Verdicts
import MiningInfra.Sidecar.Unreadable
import MiningInfra.Sidecar.Request
import MiningInfra.Sidecar.Routes
