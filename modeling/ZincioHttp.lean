import ZincioHttp.H1.ChunkWriter
import ZincioHttp.H1.Framing
import ZincioHttp.H2.Connection.Backlog
import ZincioHttp.H2.Connection.Deadlock
import ZincioHttp.H2.Connection.Fragmentation
import ZincioHttp.H2.Connection.FrameSize
import ZincioHttp.H2.Connection.Goaway
import ZincioHttp.H2.Connection.Ledger
import ZincioHttp.H2.Connection.Once
import ZincioHttp.H2.Connection.RequestBody
import ZincioHttp.H2.Connection.ResponseRun
import ZincioHttp.H2.Connection.SendWindows
import ZincioHttp.H2.Connection.TableSize
import ZincioHttp.H2.Connection.UsedStreams
import ZincioHttp.H2.StreamDriver.Backpressure
import ZincioHttp.H2.StreamDriver.Lifetime
import ZincioHttp.H3.Control.Acks
import ZincioHttp.H3.Control.Unknown
import ZincioHttp.H3.EncodeHeaders
import ZincioHttp.H3.FrameFormat
import ZincioHttp.H3.Goaway
import ZincioHttp.H3.HandleRequest.EncoderWait
import ZincioHttp.H3.Qpack.AtRisk
import ZincioHttp.H3.Qpack.Bookkeeping
import ZincioHttp.H3.Qpack.KnownReceived
import ZincioHttp.H3.Requests.Release
import ZincioHttp.H3.Upgrade.Finish
import ZincioHttp.H3.Upgrade.Independence
import ZincioHttp.RequestGrammar
