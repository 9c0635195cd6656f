import Tezedge.Storage.Stats
import Tezedge.Shell.BlockState
import Tezedge.Shell.MissingBlocks
import Tezedge.Context.Ipc
import Tezedge.Context.Protocol
import Tezedge.Monitoring.ApplicationMonitor
import Tezedge.Context.ReadPath
import Tezedge.Context.Desync
import Tezedge.Context.Worker
