import CHell.Lib.CInt
import CHell.Lib.Memory
import CHell.Lib.Reactive
import CHell.Lib.Loop
import CHell.Lib.Records
import CHell.Lib.Traced
import CHell.Lib.Token
import CHell.Lib.Inet
import CHell.Lib.Dedup
import CHell.Lib.Heap
import CHell.Lib.LinkedList
import CHell.Lib.Cells
import CHell.Lib.Refine
import CHell.Lib.ForkServer
import CHell.Lib.Comparator
import CHell.Chat.PollPass
import CHell.Chat.PollGrowth
import CHell.Chat.SelectIndices
import CHell.Chat.SelectHistories
import CHell.Chat.SelectCapacity
import CHell.Chat.Delivery
import CHell.Chat.Versions
import CHell.Chat.Listener
import CHell.Http.ParentRuns
import CHell.Http.Client
import CHell.Http.Language
import CHell.Http.ServerRuns
import CHell.Bambi.Address
import CHell.Bambi.Reaper
import CHell.Bambi.Datagrams
import CHell.Bambi.Server
import CHell.Netlink.RouteMessage
import CHell.Netlink.RouteBytes
import CHell.Netlink.RouteLines
import CHell.Netlink.AddedRoutes
import CHell.Netlink.DumpBuffer
import CHell.Netlink.Receive
import CHell.Netlink.Program
import CHell.Sniffer.Payload
import CHell.Sniffer.Devices
import CHell.Sniffer.RoutedOnce
import CHell.Sniffer.Printed
import CHell.Sniffer.Startup
import CHell.Sniffer.Sleep
import CHell.Sniffer.Listing
import CHell.Lists.Fifo
import CHell.Lists.Filo
import CHell.Lists.V2
import CHell.Lists.Cells
import CHell.Sorting.Compare
import CHell.Functions.Recursion
