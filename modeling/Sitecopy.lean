import Sitecopy.SiteModel
import Sitecopy.StateProgram
import Sitecopy.FileSet
import Sitecopy.FileSetSpec
import Sitecopy.SiteOperations
import Sitecopy.SiteStats
import Sitecopy.SiteUpdate
import Sitecopy.UpdateStats
import Sitecopy.SiteInvariants
import Sitecopy.FileMatching
import Sitecopy.ReadingOrder
import Sitecopy.UpdateAccounting
import Sitecopy.Numerals
import Sitecopy.Xml
import Sitecopy.StateFile
import Sitecopy.StateFileDocument
import Sitecopy.StateFileReading
import Sitecopy.StateFileRoundTrip
import Sitecopy.FtpSession
import Sitecopy.FtpTransfer
import Sitecopy.RunTrace
import Sitecopy.FtpReplies
import Sitecopy.FtpRules
import Sitecopy.FtpOperations
import Sitecopy.FtpPairing
import Sitecopy.FtpUpload
import Sitecopy.SetLog
import Sitecopy.UpdateRecords
import Sitecopy.OverwriteRecords
import Sitecopy.LocalSynch
import Sitecopy.ReachedFiles
import Sitecopy.UpdateConvergence
import Sitecopy.DifferenceFlags
import Sitecopy.SynchRecords
import Sitecopy.StackSearch
import Sitecopy.Paths
import Sitecopy.RemoteFetch
import Sitecopy.StateFileNames
import Sitecopy.DirectoryLists
import Sitecopy.FetchOrder
import Sitecopy.SynchAccounting
import Sitecopy.LsParser
import Sitecopy.ListingDrivers
import Sitecopy.FetchLog
import Sitecopy.FetchAtomicity
import Sitecopy.FetchedNames
import Sitecopy.SiteVerify
import Sitecopy.StateFileErrors
import Sitecopy.StorageFile
import Sitecopy.NamedEntries
import Sitecopy.NameUses
import Sitecopy.LocalScan
import Sitecopy.DriverCalls
import Sitecopy.HiddenPaths
import Sitecopy.PermissionRecords
import Sitecopy.Renames
import Sitecopy.RemoteMoves
import Sitecopy.Latin1Text
import Sitecopy.LinkTargets
import Sitecopy.FtpCommandLines
import Sitecopy.FtpNegotiation
import Sitecopy.FtpTransferType
import Sitecopy.FtpPaths
import Sitecopy.SftpDriver
import Sitecopy.BufferedLines
import Sitecopy.Rcfile
import Sitecopy.RcfileLines
import Sitecopy.PromptRefusals
import Sitecopy.InfoFileReading
import Sitecopy.FetchDiffs
import Sitecopy.PreorderSearch
import Sitecopy.ScanCompleteness
import Sitecopy.ScanTermination
import Sitecopy.SynchGuards
import Sitecopy.FtpFrames
import Sitecopy.FtpCompletion
import Sitecopy.LinkedCells
import Sitecopy.RcfileMemory
import Sitecopy.RcfileSites
import Sitecopy.RcfileIsolation
import Sitecopy.AsciiUpload
import Sitecopy.RcfileValues
import Sitecopy.LsLines
import Sitecopy.LsHeaders
import Sitecopy.PassiveReplies
import Sitecopy.ReplyFraming
import Sitecopy.FtpRetries
import Sitecopy.DriverMethods
import Sitecopy.ShellWords
import Sitecopy.RshCommands
import Sitecopy.DavListing
import Sitecopy.ForeignObjects
import Sitecopy.CheckedBuffers
import Sitecopy.PromptBuffer
import Sitecopy.NameUnescaping
import Sitecopy.ChainedCells
import Sitecopy.ListingNodes
import Sitecopy.LinkedChanges
import Sitecopy.ListNodes
import Sitecopy.ListSections
import Sitecopy.FlatList
import Sitecopy.NamedTrees
import Sitecopy.SiteTree
import Sitecopy.DirectoryOrder
import Sitecopy.ConsoleRuns
import Sitecopy.FileTrees
import Sitecopy.RemoteTree
import Sitecopy.UpdateMirror
import Sitecopy.GatheredLists
import Sitecopy.MirrorRuns
import Sitecopy.RcfileWriting
import Sitecopy.SynchMirror
import Sitecopy.ConsoleCommands
