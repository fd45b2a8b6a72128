import PennSearch.Library.Clockwise
import PennSearch.Library.Network
import PennSearch.Library.Closest
import PennSearch.Digest
import PennSearch.Chord.Node
import PennSearch.Chord.Handlers
import PennSearch.Chord.Spec
import PennSearch.Chord.Routing
import PennSearch.Chord.Ring
import PennSearch.Chord.Lookup
import PennSearch.Chord.Net
import PennSearch.Chord.Protocol
import PennSearch.Chord.Simulation
import PennSearch.Chord.Kinds
import PennSearch.Chord.Fingers
import PennSearch.Chord.FingerStart
import PennSearch.Chord.IndexHash
import PennSearch.Chord.FingerToken
import PennSearch.Chord.FingerPass
import PennSearch.Chord.FingerRepair
import PennSearch.Chord.HopBound
import PennSearch.Chord.NextHop
import PennSearch.Chord.Coherence
import PennSearch.Chord.PointerUpdates
import PennSearch.Chord.Stabilization
import PennSearch.Chord.StabilizeExchange
import PennSearch.Chord.Leave
import PennSearch.Chord.RingWalk
import PennSearch.Chord.Census
import PennSearch.Chord.Join
import PennSearch.Chord.JoinConverges
import PennSearch.Chord.Arrival
import PennSearch.Chord.Mending
import PennSearch.Chord.JoinSettles
import PennSearch.Chord.ConcurrentJoin
import PennSearch.Chord.OneCycle
import PennSearch.Search.Message
import PennSearch.Search.Handlers
import PennSearch.Library.Intersection
import PennSearch.Search.Net
import PennSearch.Library.Pieces
import PennSearch.Tokenizing
import PennSearch.Simulator.Script
import PennSearch.Simulator.Commands
import PennSearch.Search.NextHop
import PennSearch.Search.Query
import PennSearch.Search.KeywordOrder
import PennSearch.Library.Ledger
import PennSearch.Search.Postings
import PennSearch.Search.Inversion
import PennSearch.Search.Publishing
import PennSearch.Search.Callbacks
import PennSearch.Search.Resolution
import PennSearch.Search.Placement
import PennSearch.Search.Conservation
import PennSearch.Search.ArcTests
import PennSearch.Search.GracefulLeave
import PennSearch.Search.Errands
import PennSearch.Search.JoinPublish
import PennSearch.Search.PublishDuringJoin
import PennSearch.Search.Keeping
import PennSearch.Search.KeyPlacement
import PennSearch.Search.SendOutcome
import PennSearch.Search.Tokens
import PennSearch.Search.Interference
import PennSearch.Search.EndToEnd
import PennSearch.Search.Serving
import PennSearch.Search.Service
import PennSearch.Search.Undisturbed
import PennSearch.Library.CountedLoop
import PennSearch.Library.Wire
import PennSearch.Buffer
import PennSearch.Chord.Codec
import PennSearch.Chord.Pings
import PennSearch.Search.Codec
import PennSearch.Search.Results
import PennSearch.Library.HopCount
import PennSearch.Library.Newest
import PennSearch.Library.Flood
import PennSearch.LinkState.Node
import PennSearch.LinkState.Dijkstra
import PennSearch.LinkState.RouteTable
import PennSearch.LinkState.Handlers
import PennSearch.LinkState.Freshness
import PennSearch.LinkState.ShortestPaths
import PennSearch.LinkState.Forwarding
import PennSearch.LinkState.Lsps
import PennSearch.LinkState.Net
import PennSearch.LinkState.Links
import PennSearch.LinkState.Discovery
import PennSearch.LinkState.Knowledge
import PennSearch.LinkState.OwnRoute
import PennSearch.LinkState.Coverage
import PennSearch.LinkState.Convergence
import PennSearch.LinkState.TimeToLive
import PennSearch.LinkState.Codec
import PennSearch.LinkState.Steady
import PennSearch.LinkState.Datagrams
import PennSearch.Library.Requests
import PennSearch.LinkState.Pings
import PennSearch.LinkState.PingsApart
import PennSearch.Simulator.Topology
