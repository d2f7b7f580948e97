import EchTunnel.Library.Run
import EchTunnel.Library.Assoc
import EchTunnel.Tls.Gate
import EchTunnel.Quic.Pump
import EchTunnel.Quic.Egress
import EchTunnel.Quic.Plumbing
import EchTunnel.H3.Server
import EchTunnel.Quic.Ingress
import EchTunnel.H3.Client
import EchTunnel.H3.Backpressure
import EchTunnel.H3.HalfOpen
import EchTunnel.H3.Discard
import EchTunnel.H3.Routing
import EchTunnel.Ws.Stream
import EchTunnel.Ws.Fidelity
import EchTunnel.Ws.HalfClose
import EchTunnel.Http.Request
import EchTunnel.Http.SecretPath
import EchTunnel.H3.OneTunnel
import EchTunnel.H3.Isolation
import EchTunnel.H3.EchEnforced
import EchTunnel.Http.Probe
import EchTunnel.Acme.Cache
import EchTunnel.Acme.Lifecycle
import EchTunnel.H3.Loop
import EchTunnel.H3.Alert
import EchTunnel.H3.Wakeup
import EchTunnel.Library.Escape
import EchTunnel.Sip003.Options
import EchTunnel.Ech.KeyFile
import EchTunnel.Sip003.Grammar
import EchTunnel.Ech.GenKeys
import EchTunnel.ClientHello.Progress
import EchTunnel.Acme.Issue
import EchTunnel.H3.NotFound
import EchTunnel.H3.Flush
import EchTunnel.H3.Requests
import EchTunnel.Tls.Rotation
import EchTunnel.Config.FromOptions
import EchTunnel.Http.Panic
import EchTunnel.Acme.SanList
import EchTunnel.Library.Base64
import EchTunnel.Sip003.Paste
import EchTunnel.Ech.PrintedOptions
import EchTunnel.Library.Conveys
import EchTunnel.H3.End
import EchTunnel.H3.Relay
import EchTunnel.H3.Leak
import EchTunnel.Acme.Validation
import EchTunnel.Library.NetAddr
import EchTunnel.Sip003.Launch
import EchTunnel.Config.Written
import EchTunnel.H3.Apart
import EchTunnel.Tls.Client
import EchTunnel.H3.Dial
import EchTunnel.H3.Inbound
import EchTunnel.Tls.Contexts
import EchTunnel.Ech.Agreement
