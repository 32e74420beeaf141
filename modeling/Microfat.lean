import Microfat.Pack.Verify
import Microfat.Cache.Publish
import Microfat.Launcher.Verified
import Microfat.Launcher.Budget
import Microfat.Format.Runnable
import Microfat.Microarch.Monotone
import Microfat.Pack.Trim
import Microfat.Lifecycle.Metadata
import Microfat.Release.Extract
import Microfat.Pack.Spool
import Microfat.Pack.AbiAgree
import Microfat.Format.Canonical
import Microfat.Launcher.Inspect
import Microfat.Launcher.Telemetry
import Microfat.Runtimeinit.AutoTune
import Microfat.Lifecycle.Source
import Microfat.Cgroup.MemLimit
import Microfat.Cgroup.ByteSize
import Microfat.Cgroup.HeapBudget
import Microfat.Pack.AbiTranslate
import Microfat.Pack.AbiRender
import Microfat.Pack.AbiLedger
import Microfat.Pack.PlatformScan
import Microfat.Codec.Bounded
import Microfat.Pack.Admission
import Microfat.Cgroup.Ceiling
import Microfat.Bench.Schedule
import Microfat.Bench.CpuQuota
import Microfat.Update.Service
