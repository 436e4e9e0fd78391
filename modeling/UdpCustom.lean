import UdpCustom.Batch.Theorems
import UdpCustom.Budget.Theorems
import UdpCustom.ChunkPipe.Stuck
import UdpCustom.Coalesce.Theorems
import UdpCustom.Credit.DeadEnd
import UdpCustom.Datagram.Theorems
import UdpCustom.Delivery.Delayed
import UdpCustom.Downstream.Ending
import UdpCustom.Endpoint.Theorems
import UdpCustom.Fec.Memory
import UdpCustom.Fec.Pool.Progress
import UdpCustom.Flow.Theorems
import UdpCustom.Framing.Memory
import UdpCustom.Handshake.Theorems
import UdpCustom.Limiter.Theorems
import UdpCustom.Link.Admission
import UdpCustom.Link.Replay
import UdpCustom.Mac.Theorems
import UdpCustom.Noise.Authenticity
import UdpCustom.Nonce.Theorems
import UdpCustom.Outgoing.Theorems
import UdpCustom.Path.Race
import UdpCustom.Path.Recency
import UdpCustom.Payload.Theorems
import UdpCustom.PortRange.Fairness
import UdpCustom.PortRange.Iptables
import UdpCustom.PortRange.Pick
import UdpCustom.Probe.Theorems
import UdpCustom.Receive.Theorems
import UdpCustom.Reconnect.Theorems
import UdpCustom.Recovery.Acked
import UdpCustom.Recovery.Probe
import UdpCustom.Registry.Theorems
import UdpCustom.Replay.Refinement
import UdpCustom.Rtt.Machine
import UdpCustom.Sender.Attempts
import UdpCustom.Sender.Queued
import UdpCustom.Server.Commits
import UdpCustom.Share.Theorems
import UdpCustom.SockPool.Eviction
import UdpCustom.SynCache.Owners
import UdpCustom.Target.Theorems
import UdpCustom.Uplink.Theorems
