import AutotestClient.Verification.Aiostress.Extraction
import AutotestClient.Verification.Aiostress.Offsets
import AutotestClient.Verification.Aiostress.Opers
import AutotestClient.Verification.Aiostress.Plan
import AutotestClient.Verification.Aiostress.Stages
import AutotestClient.Verification.CheckTsc.Accuracy
import AutotestClient.Verification.CheckTsc.Deadlock
import AutotestClient.Verification.CheckTsc.Freshness
import AutotestClient.Verification.CheckTsc.Soundness
import AutotestClient.Verification.CpuSet.RoundTrip
import AutotestClient.Verification.DmaMemtest.Copies
import AutotestClient.Verification.DmaMemtest.Modes
import AutotestClient.Verification.Ffsb.Layout
import AutotestClient.Verification.Ffsb.Tempdirs
import AutotestClient.Verification.FtpTest.Safety
import AutotestClient.Verification.FtpTest.Session
import AutotestClient.Verification.Hackbench.Progress
import AutotestClient.Verification.Harness.Arrays
import AutotestClient.Verification.Harness.Cleanup
import AutotestClient.Verification.Harness.Contracts
import AutotestClient.Verification.Harness.Directories
import AutotestClient.Verification.Harness.Ipv6
import AutotestClient.Verification.Harness.Ipv6Info
import AutotestClient.Verification.Harness.Mounts
import AutotestClient.Verification.Harness.Names
import AutotestClient.Verification.Harness.Numbers
import AutotestClient.Verification.Harness.OnlyOnce
import AutotestClient.Verification.Harness.Ports
import AutotestClient.Verification.Harness.Services
import AutotestClient.Verification.Harness.Waiters
import AutotestClient.Verification.Harness.Watchdog
import AutotestClient.Verification.Iozone.Columns
import AutotestClient.Verification.Iozone.Comparison
import AutotestClient.Verification.Iozone.Sections
import AutotestClient.Verification.Iperf.Bandwidth
import AutotestClient.Verification.KernelInstall.Packages
import AutotestClient.Verification.Libvirt.Blocks
import AutotestClient.Verification.Lock.MutualExclusion
import AutotestClient.Verification.LtpDiff.Verdict
import AutotestClient.Verification.ParallelDd.Restore
import AutotestClient.Verification.Primes.Interval
import AutotestClient.Verification.ThreadTable.Exactness
import AutotestClient.Verification.TimeTest.Accounting
import AutotestClient.Verification.Tsc.Classification
import AutotestClient.Verification.Unixbench.Extraction
import AutotestClient.Verification.WbKupdate.Files
import AutotestClient.Verification.WbKupdate.Flush
import AutotestClient.Verification.Xfstests.Groups
