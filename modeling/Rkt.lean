import Rkt.Conc.Prog
import Rkt.Conc.System
import Rkt.Conc.Flock
import Rkt.Conc.Proto
import Rkt.Pods.World
import Rkt.Pods.Commands
import Rkt.Pods.Protocol
import Rkt.Pods.Rules
import Rkt.Pods.Lifecycle
import Rkt.Conc.Interference
import Rkt.Pods.Lookup
import Rkt.Lock.KeyLock
import Rkt.Lock.Exclusion
import Rkt.Keys.Keystore
import Rkt.Keys.Walk
import Rkt.Keys.Trust
import Rkt.Num.Decimal
import Rkt.Stage1.Units
import Rkt.Stage1.Diagexec
import Rkt.Conc.Database
import Rkt.Store.World
import Rkt.Store.Store
import Rkt.Store.Rules
import Rkt.Fetch.Fetch
import Rkt.Fetch.Rules
import Rkt.Store.Tx
import Rkt.Fetch.References
import Rkt.Fetch.Verified
import Rkt.Fetch.Entries
import Rkt.Store.Version
import Rkt.Fetch.Session
import Rkt.Pods.Alone
import Rkt.Pods.Sweep
import Rkt.Tree.TreeStore
import Rkt.Tree.Rendered
import Rkt.Metadata.PodStore
import Rkt.Conc.Sequential
import Rkt.Keys.AddKeys
import Rkt.Keys.Masks
import Rkt.Fetch.Deps
import Rkt.Code.Delimited
import Rkt.Code.Json
import Rkt.Tree.Hash
import Rkt.Code.UnitFile
import Rkt.Stage1.QuoteExec
import Rkt.Stage1.EnvFile
import Rkt.Stage1.Invocations
import Rkt.Store.Do
import Rkt.Store.Migrate
import Rkt.Conc.Call
import Rkt.Pods.Running
import Rkt.Code.UnitText
import Rkt.Stage1.Mounts
import Rkt.Stage1.UnitFiles
import Rkt.Networking.Nets
import Rkt.Networking.Setup
import Rkt.Networking.Saved
import Rkt.Keys.Levels
import Rkt.Keys.Kernel
import Rkt.Conc.Calls
import Rkt.Store.Handle
import Rkt.Metadata.Registration
import Rkt.Fetch.Answers
import Rkt.Fetch.Names
import Rkt.Pods.Walk
import Rkt.Pods.Deletion
import Rkt.Pods.Removal
import Rkt.Pods.ImageRm
import Rkt.Conc.Record
import Rkt.Lock.Cleaning
import Rkt.Conc.Stutter
import Rkt.Pods.Refresh
import Rkt.Pods.Transitions
import Rkt.Conc.Trace
import Rkt.Networking.Kvm
import Rkt.Networking.Selection
import Rkt.Fs.Tree
import Rkt.Store.CopyTree
import Rkt.Store.Backup
import Rkt.Conc.Seen
import Rkt.Store.Lookup
import Rkt.Store.Resolve
import Rkt.Store.Best
import Rkt.Store.Vanishing
import Rkt.Store.Key
import Rkt.Keys.Files
import Rkt.Keys.Added
import Rkt.Cgroup.Slice
import Rkt.Code.Fields
import Rkt.Path.Clean
import Rkt.Auth.Config
import Rkt.Code.Result
import Rkt.Tar.Extract
import Rkt.Tar.Owner
import Rkt.Tar.Files
import Rkt.Tar.Overwrite
import Rkt.Code.JsonSet
import Rkt.Tar.Whitelist
import Rkt.Uid.Range
import Rkt.Stage1.Enter
import Rkt.Apps.ParseApps
import Rkt.Fetch.MaxAge
import Rkt.Selinux.Mcs
import Rkt.Tree.Xattrs
import Rkt.Config.SubDirs
import Rkt.Tar.Times
import Rkt.Code.Scan
import Rkt.Metadata.Body
import Rkt.Uid.Serialize
import Rkt.Apps.MergeEnvs
import Rkt.Tools.Filelist
