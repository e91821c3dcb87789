import MiniWebSrv.Common.WriteBuffQueueFifo
import MiniWebSrv.Common.StreamReadBuffGrowth
import MiniWebSrv.WebSocket.LifeCycle
import MiniWebSrv.WebSocket.Receive
import MiniWebSrv.WebSocket.Writes
import MiniWebSrv.HTTP.KeptHeaders
import MiniWebSrv.HTTP.UploadLimits
import MiniWebSrv.HTTP.UploadedFiles
import MiniWebSrv.HTTP.FormRoundTrip
import MiniWebSrv.HTTP.Surroundings
import MiniWebSrv.HTTP.ReadContract
import MiniWebSrv.HTTP.HeadersParsed
import MiniWebSrv.HTTP.Pipelining
import MiniWebSrv.HTTP.ResponseFraming
import MiniWebSrv.WebSocket.CloseReasons
import MiniWebSrv.WebSocket.FrameLengths
import MiniWebSrv.WebSocket.Reassembly
import MiniWebSrv.WebSocket.Sending
import MiniWebSrv.HTTP.Server
import MiniWebSrv.HTTP.UrlDecoding
import MiniWebSrv.HTTP.ResponseLifetime
import MiniWebSrv.HTTP.UploadProtocol
import MiniWebSrv.Common.WriteBuffQueueSends
import MiniWebSrv.WebSocket.CloseFrames
import MiniWebSrv.HTTP.StoredUploads
import MiniWebSrv.HTTP.RequestLineFound
import MiniWebSrv.HTTP.KeptAlive
import MiniWebSrv.HTTP.QueryPairs
import MiniWebSrv.HTTP.UrlRoundTrip
import MiniWebSrv.HTTP.NotModified
import MiniWebSrv.HTTP.ResponseHeaders
import MiniWebSrv.HTTP.QueryMoves
import MiniWebSrv.HTTP.KeyValues
import MiniWebSrv.WebSocket.AcceptKey
import MiniWebSrv.HTTP.KnownHeaders
import MiniWebSrv.HTTP.ZipStreaming
import MiniWebSrv.WebSocket.Unmasking
import MiniWebSrv.WebSocket.Pongs
import MiniWebSrv.HTTP.MatcherIndices
import MiniWebSrv.HTTP.RefusedUploads
import MiniWebSrv.HTTP.ZipArchive
import MiniWebSrv.HTTP.Isolation
import MiniWebSrv.HTTP.Combiner
import MiniWebSrv.Common.WriteBuffQueueOwners
import MiniWebSrv.HTTP.LogPairs
import MiniWebSrv.Common.WriteBuffQueueReclaim
import MiniWebSrv.WebSocket.Echo
import MiniWebSrv.HTTP.CoroResponse
import MiniWebSrv.HTTP.Hosting
