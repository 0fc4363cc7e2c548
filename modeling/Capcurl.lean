import Capcurl.Spec.Chunks
import Capcurl.ChunkedBody
import Capcurl.ResponseCodec
import Capcurl.ReadLoop
import Capcurl.Session
import Capcurl.Resolve
import Capcurl.Confinement
import Capcurl.Agreement
import Capcurl.Relay
import Capcurl.Marker
import Capcurl.Pinned
import Capcurl.ChunkedCodec
import Capcurl.NeedMore
import Capcurl.Segmentation
import Capcurl.Caps
import Capcurl.HopByHop
import Capcurl.OriginHeaders
import Capcurl.Secrecy
import Capcurl.Delivery
import Capcurl.Delivery.Parties
import Capcurl.Delivery.Refusals
import Capcurl.Delivery.Ends
import Capcurl.Delivery.Stages
import Capcurl.Delivery.Answers
import Capcurl.Calls
import Capcurl.Listener
import Capcurl.OneRequest
import Capcurl.ResponseRead
import Capcurl.Handshake
import Capcurl.Authority
import Capcurl.TargetGrammar
import Capcurl.Attenuation
import Capcurl.Script
import Capcurl.Cli.Client
import Capcurl.Cli.ClientLine
import Capcurl.Cli.Command
import Capcurl.Cli.Capcurld
import Capcurl.Cli.Grant
import Capcurl.Cli.Line
import Capcurl.Cli.Methods
import Capcurl.Cli.Endpoint
import Capcurl.Calls.Connection
import Capcurl.Calls.Parties
import Capcurl.Join
import Capcurl.Target
import Capcurl.Escapes
import Capcurl.Rejection
import Capcurl.Expansion
import Capcurl.Spec.Whatwg
import Capcurl.RequestHead
import Capcurl.Framing
import Capcurl.Core.Exchange
import Capcurl.Core.Duplex
import Capcurl.Core.Call
import Capcurl.Policy.Grant
import Capcurl.Policy.Target
import Capcurl.Policy.Header
import Capcurl.Http.Request
import Capcurl.Http.Chunked
import Capcurl.Http.Response
import Capcurl.Lib.Rust
import Capcurl.Lib.Transition
import Capcurl.Lib.Reads
import Capcurl.Lib.Numeral
import Capcurl.Lib.Utf8
import Capcurl.Lib.CommandLine
import Capcurl.Lib.Split
