import WagoHttp.Http2.Session.SendLedger
import WagoHttp.Http2.Session.RecvLedger
import WagoHttp.Http2.Session.Reset
import WagoHttp.Http2.Session.EventGrammar
import WagoHttp.Http2.Session.ContentLength
import WagoHttp.Http2.Session.SendGrammar
import WagoHttp.Http2.Request.Pool
import WagoHttp.Http2.Session.Storage
import WagoHttp.Http2.Session.Outcomes
import WagoHttp.Http2.Session.Splitting
import WagoHttp.Http2.Session.Progress
import WagoHttp.Http2.Blocks
import WagoHttp.Http2.Session.PeerSettings
import WagoHttp.Http2.Session.Failures
import WagoHttp.Http2.Abi.Lifecycle
import WagoHttp.Http2.Abi.Entry
import WagoHttp.Http1.Pieces
import WagoHttp.Http1.Recognition
