import GoraddServe.HubIndex
import GoraddServe.HubDelivery
import GoraddServe.HubSuccession
import GoraddServe.HubBlocking
import GoraddServe.ElementForest
import GoraddServe.SessionPersistence
import GoraddServe.SessionInterleaving
import GoraddServe.SessionRedirect
import GoraddServe.AjaxExclusion
import GoraddServe.AjaxOrder
import GoraddServe.AjaxResponses
import GoraddServe.FormChanges
import GoraddServe.DisabledOutput
import GoraddServe.BufferPool
import GoraddServe.ErrorResponses
import GoraddServe.AbandonedHeaders
import GoraddServe.CacheEviction
import GoraddServe.HiddenFiles
import GoraddServe.ContentNegotiation
import GoraddServe.FileProcessors
import GoraddServe.AssetUrls
import GoraddServe.CacheCollection
import GoraddServe.CacheExpiry
import GoraddServe.CacheInterleaving
import GoraddServe.CacheRemovals
import GoraddServe.CacheBusting
import GoraddServe.LocalPaths
import GoraddServe.JsonBody
import GoraddServe.FinalCommands
import GoraddServe.RequestOutcomes
import GoraddServe.RefreshList
import GoraddServe.Throttle
import GoraddServe.ActionRuns
import GoraddServe.Unpacking
import GoraddServe.ResponseFiles
import GoraddServe.TextToHtml
import GoraddServe.ScrollIntoView
import GoraddServe.SessionStacks
import GoraddServe.AuthenticateErrors
import GoraddServe.HeaderParams
import GoraddServe.InvalidHeaders
import GoraddServe.Watchers
import GoraddServe.ErrorReports
import GoraddServe.Muxers
import GoraddServe.WatchedControls
import GoraddServe.ServerHandlers
import GoraddServe.ControlRegistration
import GoraddServe.CacheContents
import GoraddServe.PostedValues
import GoraddServe.SelectTables
import GoraddServe.WidgetOptions
import GoraddServe.DrawFuncs
import GoraddServe.ControlTimers
import GoraddServe.FileSelects
