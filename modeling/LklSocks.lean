import LklSocks.Lkl.NonBlocking
import LklSocks.Lkl.Options
import LklSocks.SocksConnection.Joining
import LklSocks.SocksConnection.Outcome
import LklSocks.SocksServer.Answers
import LklSocks.SocksServer.Kernel
import LklSocks.SocksServer.Order
import LklSocks.SocksServer.Program
import LklSocks.SocksServer.Registry
import LklSocks.SocksServer.Rest
import LklSocks.SocksServer.StartFailure
