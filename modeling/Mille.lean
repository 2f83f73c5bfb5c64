import Mille.Core.StorePaths
import Mille.Core.StoreSorted
import Mille.Core.StoreChanges
import Mille.Core.StoreSummaries
import Mille.Core.IdMapRefines
import Mille.Core.RowTree
import Mille.Git.QueueFreshness
import Mille.Git.Mutation
import Mille.Git.PorcelainAgreement
import Mille.Drive.SyncPulls
import Mille.Drive.SyncPeers
import Mille.Drive.SyncFrames
import Mille.Stream.FrameBytes
import Mille.Stream.Chunking
import Mille.Remote.SessionRuns
import Mille.Host.BoundaryChecks
import Mille.Host.ViewRuns
import Mille.Host.AckRuns
import Mille.Drive.GcRuns
import Mille.Host.Names
import Mille.Binding.ReconcileRuns
import Mille.Binding.JournalRuns
import Mille.Binding.TransferOverlay
import Mille.Client.NaturalSort
import Mille.Watch.Pairer
import Mille.Client.ChildListCodec
import Mille.Core.NestingPartition
import Mille.Client.MirrorLists
import Mille.Client.MirrorRows
import Mille.Core.ResumeDiff
import Mille.Watch.Roots
import Mille.Core.IgnoreIndex
import Mille.Watch.Volatile
import Mille.Watch.History
import Mille.Watch.HistoryToken
import Mille.Drive.Reassembly
import Mille.Drive.Report
import Mille.Drive.Build
import Mille.Drive.PullSteps
import Mille.Drive.PullReports
import Mille.Core.ScanList
import Mille.Core.ScanWalk
import Mille.Git.PorcelainRecords
import Mille.Git.StatusWiden
import Mille.Git.Discard
import Mille.Git.LogLines
import Mille.Git.Route
import Mille.Git.Hunks
import Mille.Drive.LocalWrites
import Mille.Stream.OutboundRuns
import Mille.Git.Registry
import Mille.Mesh.FacadeRuns
import Mille.Drive.NetworkRuns
import Mille.Core.SortTotal
import Mille.Ui.ProjectionLookup
import Mille.Ui.WhenPrinting
import Mille.Ui.GitRuns
import Mille.Ui.EnginePaths
import Mille.WebSocket.ChannelRuns
import Mille.Ui.BatchCommands
import Mille.Drive.GcExact
import Mille.Stream.Delivery
import Mille.Binding.TransferKeeps
import Mille.Drive.NetworkKeeps
