import DarwinArt.Binder.RegistryReplies
import DarwinArt.Binder.RegistryCalls
import DarwinArt.BinderProcess.Stranded
import DarwinArt.Binder.NodeNotifications
import DarwinArt.Binder.NodeCallbacks
import DarwinArt.Binder.AuthorityCodec
import DarwinArt.Binder.TransferRoundTrip
import DarwinArt.Elf.GroupLayout
import DarwinArt.Elf.GraphRuns
import DarwinArt.Elf.UnloadOrder
import DarwinArt.Linker.GroupRetirementRuns
import DarwinArt.Linker.CloseRuns
import DarwinArt.Dso.ProtocolRuns
import DarwinArt.Binder.ThreadEnds
import DarwinArt.Binder.PublicationOutcomes
import DarwinArt.Pthread.OnceRuns
import DarwinArt.Fd.SocketIo
import DarwinArt.Profile.CausalOrder
import DarwinArt.Pthread.SideTableRuns
import DarwinArt.Vm.BorrowedRanges
import DarwinArt.Prefix.MountTable
import DarwinArt.Fd.Sendfile
import DarwinArt.Socket.TimerFd
