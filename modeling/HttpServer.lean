import HttpServer.Lib.Bytes
import HttpServer.Lib.CMemory
import HttpServer.Lib.Decimal
import HttpServer.Lib.Message
import HttpServer.Lib.Path
import HttpServer.Lib.Interleave
import HttpServer.Lib.PairBag
import HttpServer.DArray
import HttpServer.Hashmap
import HttpServer.HashmapSem
import HttpServer.HashmapRuns
import HttpServer.Request
import HttpServer.RequestSem
import HttpServer.Encoding
import HttpServer.Response
import HttpServer.ResponseSem
import HttpServer.BuilderSem
import HttpServer.HeaderCodec
import HttpServer.Routes
import HttpServer.Main
import HttpServer.RoutesSem
import HttpServer.Dispatch
import HttpServer.MainSem
import HttpServer.RequestSafety
import HttpServer.Connection
import HttpServer.Confine
import HttpServer.Framing
import HttpServer.Platform
import HttpServer.Echo
import HttpServer.Lookups
import HttpServer.UserAgent
import HttpServer.Files
import HttpServer.CloseLine
import HttpServer.ChildLoop
import HttpServer.BuilderRuns
import HttpServer.Concurrent
import HttpServer.Lib.Runs
import HttpServer.Lib.CInt
import HttpServer.Lib.IntConstant
import HttpServer.DArrayRuns
import HttpServer.DArrayGrowth
import HttpServer.DArrayClear
import HttpServer.Compression
import HttpServer.ParseLong
import HttpServer.Methods
import HttpServer.CloseOnce
import HttpServer.HeaderStores
import HttpServer.BodyStores
import HttpServer.RequestLine
import HttpServer.Lib.Footprint
import HttpServer.Children
import HttpServer.Server
import HttpServer.Lib.Stream
import HttpServer.Stream
import HttpServer.PlatformRuns
import HttpServer.Lib.Mixing
import HttpServer.DefaultHash
import HttpServer.Lib.Lines
import HttpServer.Canonical
import HttpServer.Lib.Ledger
import HttpServer.HashmapValues
import HttpServer.Lib.Smear
import HttpServer.Bstrlib
import HttpServer.BstrlibRuns
import HttpServer.Blocks
import HttpServer.RequestBlocks
import HttpServer.ResponseBlocks
import HttpServer.RouteBlocks
import HttpServer.ChildBlocks
import HttpServer.Leaks
import HttpServer.HashmapBlocks
import HttpServer.HashmapRefusals
import HttpServer.Crashes
