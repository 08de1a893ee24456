import ThirdPersonMP.Library.Run
import ThirdPersonMP.Library.StreamDecoder
import ThirdPersonMP.Base.TArray
import ThirdPersonMP.Network.Decoder
import ThirdPersonMP.Network.Encoder
import ThirdPersonMP.Network.TcpSocketRunnable
import ThirdPersonMP.Network.TcpSocket
import ThirdPersonMP.Network.Notifications
import ThirdPersonMP.Network.Receive
import ThirdPersonMP.Network.ErrorReport
import ThirdPersonMP.Network.SendPath
import ThirdPersonMP.Rpc.MgrMessage
import ThirdPersonMP.Library.Codec
import ThirdPersonMP.Rpc.RpcChannel
import ThirdPersonMP.Rpc.SignIn
import ThirdPersonMP.Rpc.Outstanding
import ThirdPersonMP.Rpc.Reply
import ThirdPersonMP.Rpc.Peers
import ThirdPersonMP.Rpc.Agreement
import ThirdPersonMP.Rpc.Leak
import ThirdPersonMP.Network.Residue
import ThirdPersonMP.Network.StaleMessages
import ThirdPersonMP.Network.Threads
import ThirdPersonMP.Rpc.Dispatch
import ThirdPersonMP.System.MyPlayerController
import ThirdPersonMP.Rpc.Malformed
import ThirdPersonMP.Rpc.Server
import ThirdPersonMP.Rpc.ExactlyOnce
import ThirdPersonMP.System.Subsystem
import ThirdPersonMP.Rpc.Registration
import ThirdPersonMP.Network.ReceiveSize
import ThirdPersonMP.Library.Simulation
import ThirdPersonMP.Network.Delivery
import ThirdPersonMP.System.Connection
import ThirdPersonMP.Rpc.InFlight
import ThirdPersonMP.System.Refinement
import ThirdPersonMP.Network.Announcements
import ThirdPersonMP.Network.Completion
import ThirdPersonMP.System.PlayerPawn
import ThirdPersonMP.Network.Draining
import ThirdPersonMP.System.Deinitialize
import ThirdPersonMP.Network.Arrival
import ThirdPersonMP.Network.Host
import ThirdPersonMP.Network.Starvation
import ThirdPersonMP.Network.Recovery
import ThirdPersonMP.Network.Transit
import ThirdPersonMP.System.Arrival
import ThirdPersonMP.System.Calls
