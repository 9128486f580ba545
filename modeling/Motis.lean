import Motis.Lib.Runs
import Motis.Module.RemoteRuns
import Motis.Nigiri.SectionCoverage
import Motis.Core.Common.IntervalMap
import Motis.Core.Common.FwsAtomicity
import Motis.Core.Common.FwsErase
import Motis.Core.Common.FwsIterators
import Motis.Core.Common.FwsBuilder
import Motis.Core.Journey.RoundTrip
import Motis.Core.Journey.CheckJourney
import Motis.Core.Journey.EncoderImage
import Motis.Intermodal.PatchConsistency
import Motis.Intermodal.DirectOrientation
import Motis.Intermodal.SplitTransport
import Motis.Intermodal.StreetEdges
import Motis.Module.Routing
import Motis.Module.Normalisation
import Motis.Module.Dispatcher
import Motis.Bootstrap.MotisInstance
import Motis.Module.ImportJoin
import Motis.Nigiri.Routing
import Motis.Nigiri.Import
import Motis.Nigiri.Railviz
import Motis.Nigiri.EvTermination
import Motis.Nigiri.ResolveRun
import Motis.Nigiri.Guesser
import Motis.Protocol.ReferenceClosure
import Motis.Protocol.SchemaRoundTrip
import Motis.Protocol.TypeFilterExactness
import Motis.Protocol.DocUpdate
import Motis.Protocol.TypeScriptClosure
import Motis.Launcher.BatchMode
import Motis.Nigiri.ImportState
import Motis.Parking.ParkingEdges
import Motis.Parking.Parkings
import Motis.Parking.Import
import Motis.Ui.Paging
import Motis.Gbfs.Optimality
import Motis.Gbfs.Response
import Motis.Gbfs.DirectTargets
import Motis.Ui.StationPaging
import Motis.Ui.ConnectionGeometry
import Motis.Ui.DetailView
import Motis.Ui.TrainAnimation
import Motis.Ui.LiveMap
import Motis.Android.RequestAccounting
import Motis.Module.HttpRequest
import Motis.Ui.Typeahead
import Motis.Ui.TripSearch
import Motis.Ui.JourneyMoves
import Motis.Ui.JourneyTransportGraph
import Motis.Core.Common.FloydWarshall
import Motis.Core.Common.Dial
import Motis.Core.Metrics.MetricsStorage
import Motis.Osr.FootRouting
import Motis.Protocol.TypeScriptMeaning
import Motis.Android.ConnectionTimeline
import Motis.Bootstrap.ImportOrder
import Motis.Android.MessageBuilder
import Motis.Nigiri.RailvizTrains
import Motis.Intermodal.ComparatorJoin
import Motis.Android.Sections
