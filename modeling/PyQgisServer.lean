import PyQgisServer.Library.Transition
import PyQgisServer.Library.Links
import PyQgisServer.Zmq.BrokerQueue
import PyQgisServer.Zmq.Restart
import PyQgisServer.Zmq.Delivery
import PyQgisServer.Cache.FileHandler
import PyQgisServer.Handlers.DroppedBody
import PyQgisServer.Qgis.Completeness
import PyQgisServer.Cache.Eviction
import PyQgisServer.Qgis.Simulation
import PyQgisServer.Cache.Observer
import PyQgisServer.Cache.MergeQs
import PyQgisServer.Cache.PathAlias
import PyQgisServer.Cache.SecureUrl
import PyQgisServer.Qgis.ConfigCache
import PyQgisServer.Cache.Swallowed
import PyQgisServer.Zmq.Supervisor
import PyQgisServer.Zmq.Exchange
import PyQgisServer.Cache.Monotonic
import PyQgisServer.Qgis.NotModified
import PyQgisServer.Qgis.Grammar
import PyQgisServer.Cache.LruRecency
import PyQgisServer.Cache.Rotation
import PyQgisServer.Cache.ReRead
import PyQgisServer.Qgis.StoreFailure
import PyQgisServer.Zmq.WorkConserving
import PyQgisServer.Handlers.Arguments
import PyQgisServer.Cache.SameProject
import PyQgisServer.Cache.SqlText
import PyQgisServer.Handlers.GetFeature
import PyQgisServer.Workers.OomKiller
import PyQgisServer.Workers.Pool
import PyQgisServer.Handlers.Middleware
import PyQgisServer.Management.CacheLink
import PyQgisServer.Management.Execute
import PyQgisServer.Cache.Preload
import PyQgisServer.Handlers.Monitor
import PyQgisServer.Plugins.Discovery
import PyQgisServer.Cache.OwnFile
import PyQgisServer.Zmq.Board
import PyQgisServer.Zmq.Supervised
import PyQgisServer.Workers.PoolAtomic
import PyQgisServer.Handlers.FilterState
import PyQgisServer.Workers.WatchFiles
import PyQgisServer.Config.ConfigService
import PyQgisServer.Qgis.Labels
import PyQgisServer.Handlers.Transparency
import PyQgisServer.Management.Reports
import PyQgisServer.Handlers.Dispatch
import PyQgisServer.Management.Routes
import PyQgisServer.Zmq.Progress
import PyQgisServer.Cache.ReadProject
import PyQgisServer.Components.ComponentManager
import PyQgisServer.Components.Services
