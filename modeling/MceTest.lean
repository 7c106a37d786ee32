import MceTest.PageTypes.Histogram
import MceTest.PageTypes.Show
import MceTest.Library.Interval
import MceTest.PageTypes.Task
import MceTest.Library.Numeral
import MceTest.PageTypes.Args
import MceTest.PageTypes.Walk
import MceTest.PageTypes.Selection
import MceTest.PageTypes.Physical
import MceTest.Library.Mask
import MceTest.PageTypes.BitsSpec
import MceTest.PageTypes.BitsMeaning
import MceTest.Hwpoison.Inject
import MceTest.Hwpoison.Verdict
import MceTest.Kdump.Driver
import MceTest.Kdump.Campaign
import MceTest.Library.Semaphore
import MceTest.Library.Transition
import MceTest.PagePoisoning.Model
import MceTest.PagePoisoning.Protocol
import MceTest.PagePoisoning.Collect
import MceTest.Tinjpage.Model
import MceTest.Tinjpage.Children
import MceTest.Tinjpage.Parent
import MceTest.Tinjpage.Verdict
import MceTest.Library.Sed
import MceTest.Mcemenu.Scenario
import MceTest.PageTypes.Listing
import MceTest.Pagemap.Decoders
import MceTest.PagePoisoning.Deaths
import MceTest.Hwpoison.FullPass
import MceTest.Library.CInt
import MceTest.Library.Counted
import MceTest.Thugetlb.Hugepage
import MceTest.Thugetlb.Model
import MceTest.Thugetlb.Offline
import MceTest.Thugetlb.Runs
import MceTest.Thugetlb.Range
import MceTest.Library.SemUndo
import MceTest.Thugetlb.Fork
import MceTest.FsMetadata.Tree
import MceTest.FsMetadata.Generate
import MceTest.FsMetadata.Traverse
import MceTest.FsMetadata.Find
import MceTest.Library.Separated
import MceTest.FsMetadata.Pieces
import MceTest.FsMetadata.Diff
import MceTest.FsMetadata.Entries
import MceTest.Library.Bc
import MceTest.FsMetadata.DiskSpace
import MceTest.FsMetadata.Counted
import MceTest.FsMetadata.Summary
import MceTest.Coverage.Merge
import MceTest.Coverage.Gcov
import MceTest.Coverage.Scov
import MceTest.Mce.Compare
import MceTest.Hwpoison.Progress
import MceTest.PageTypes.Names
import MceTest.PageTypes.Longname
import MceTest.PageTypes.FileWalk
import MceTest.PageTypes.FilePages
import MceTest.Library.Effect
import MceTest.Library.Format
import MceTest.PagePoisoning.Logging
import MceTest.PagePoisoning.Program
import MceTest.PagePoisoning.Buffers
import MceTest.Library.Align
import MceTest.Ttranshuge.Model
import MceTest.Ttranshuge.Inside
import MceTest.RandomOffline.Model
import MceTest.RandomOffline.GivesBack
import MceTest.Edac.Sampling
import MceTest.Edac.Inject
import MceTest.Edac.InRange
import MceTest.Bsp.Model
import MceTest.Library.Once
import MceTest.Bsp.FailList
import MceTest.Runmcetest.Model
import MceTest.Runmcetest.Totals
import MceTest.Library.Slots
import MceTest.Tinjpage.Options
import MceTest.Library.Budget
import MceTest.Victim.Trigger
import MceTest.Library.Subopt
import MceTest.Victim.Address
import MceTest.Library.Fgets
import MceTest.Library.Registry
import MceTest.Pan.Zoo
import MceTest.Library.Tokens
import MceTest.Pan.Accounts
import MceTest.Pan.Reports
import MceTest.Pan.Sequence
import MceTest.Pan.Splitstr
import MceTest.Pan.Stopping
import MceTest.PageTypes.TaskPages
