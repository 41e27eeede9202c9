import MeshlyCore.Protocol.Decode
import MeshlyCore.Protocol.Wire
import MeshlyCore.Protocol.Reencode
import MeshlyCore.Protocol.Reading
import MeshlyCore.Identity
import MeshlyCore.Handshake.World
import MeshlyCore.RateLimit.Progress
import MeshlyCore.RateLimit.Window
import MeshlyCore.Config.Tokens
import MeshlyCore.Control.Reaping
import MeshlyCore.Control.Exit
import MeshlyCore.Control.Registration
import MeshlyCore.Control.Naming
import MeshlyCore.Control.Removal
import MeshlyCore.Control.Expiry
import MeshlyCore.Control.Outline
import MeshlyCore.Control.Reply
import MeshlyCore.Client.Backoff
import MeshlyCore.Client.Router
import MeshlyCore.Relay.Admission
import MeshlyCore.Relay.Copy
import MeshlyCore.Relay.Transparent
import MeshlyCore.Relay.Rate
import MeshlyCore.Relay.Tasks
import MeshlyCore.StaticHttp.Pipelining
import MeshlyCore.StaticHttp.Head
import MeshlyCore.StaticHttp.Framing
import MeshlyCore.StaticHttp.Outside
import MeshlyCore.StaticHttp.Links
import MeshlyCore.StaticHttp.Markup
import MeshlyCore.StaticHttp.Lines
import MeshlyCore.Registry.Swept
import MeshlyCore.Tunnel.Delivery
import MeshlyCore.Relay.Throttled
import MeshlyCore.Mesh.Progress
import MeshlyCore.Mesh.Shown
import MeshlyCore.Relay.Handover
import MeshlyCore.Client.Retry
import MeshlyCore.Client.Forwarding
import MeshlyCore.Mesh.Reached
