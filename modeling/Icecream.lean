import Icecream.Session
import Icecream.Daemon.ServeRuns
import Icecream.Daemon.Serve
import Icecream.Comm.Files
import Icecream.Client.RemoteRuns
import Icecream.Library.Chunked
import Icecream.Client.Remote
import Icecream.Library.Procedure
import Icecream.Comm.Stream
import Icecream.Comm.Splitting
import Icecream.Comm.Handshake
import Icecream.Daemon.Channel
import Icecream.Scheduler.Servers
import Icecream.Scheduler.Ending
import Icecream.Scheduler.Queue
import Icecream.Scheduler.Handlers
import Icecream.Scheduler.Loop
import Icecream.Scheduler.Peers
import Icecream.Scheduler.Tasks
import Icecream.Scheduler.Handled
import Icecream.Scheduler.Commands
import Icecream.Scheduler.Choice
import Icecream.Scheduler.Placing
import Icecream.Scheduler.Logins
import Icecream.Scheduler.Activity
import Icecream.Scheduler.Sweeps
import Icecream.Scheduler.Turns
import Icecream.Scheduler.Homes
import Icecream.Scheduler.Lifetimes
import Icecream.Scheduler.Blacklist
import Icecream.Scheduler.Finishing
import Icecream.Scheduler.Requests
import Icecream.Services.Discovery
import Icecream.Scheduler.Rivals
import Icecream.Daemon.Presence
import Icecream.Daemon.Books
import Icecream.Daemon.Upkeep
import Icecream.Library.Table
import Icecream.Daemon.Creations
import Icecream.Daemon.Children
import Icecream.Daemon.Reading
import Icecream.Daemon.Sizes
import Icecream.Daemon.Awaiting
import Icecream.Library.Rotation
import Icecream.Scheduler.Grouping
import Icecream.Scheduler.Holdings
import Icecream.Scheduler.Moves
import Icecream.Scheduler.Accounts
import Icecream.Scheduler.Shape
import Icecream.Scheduler.Load
import Icecream.Scheduler.Fairness
import Icecream.Daemon.Earliest
import Icecream.Scheduler.Serving
import Icecream.Daemon.Eviction
import Icecream.Daemon.Rebuilds
import Icecream.Daemon.Responses
import Icecream.Comm.Connection
import Icecream.Comm.Errors
import Icecream.Scheduler.Lasting
import Icecream.Scheduler.Installs
import Icecream.Comm.Intake
import Icecream.Daemon.Wire
import Icecream.Daemon.Forks
import Icecream.Scheduler.Counts
import Icecream.Scheduler.Departures
import Icecream.Library.Script
import Icecream.Comm.Malformed
import Icecream.Comm.Growth
import Icecream.Comm.Compress
import Icecream.Comm.Transfer
import Icecream.Comm.Lines
import Icecream.Services.Datagrams
import Icecream.Scheduler.Ranking
import Icecream.Library.Oldest
import Icecream.Scheduler.Placements
import Icecream.Scheduler.Rotations
import Icecream.Scheduler.Refreshing
import Icecream.Scheduler.Fastest
import Icecream.Scheduler.Statistics
import Icecream.Scheduler.Submissions
import Icecream.Scheduler.Connectivity
import Icecream.Client.Main
import Icecream.Client.LocalBuild
import Icecream.Daemon.Layout
import Icecream.Services.Naming
import Icecream.Services.Output
import Icecream.Client.Lock
import Icecream.Client.NativeFlags
import Icecream.Daemon.Reports
import Icecream.Daemon.Gathering
import Icecream.Daemon.Supply
import Icecream.Daemon.Removal
import Icecream.Daemon.Room
import Icecream.Comm.Checked
import Icecream.Comm.Cursors
import Icecream.Library.Absorption
import Icecream.Client.Md5
import Icecream.Library.Firsts
import Icecream.Client.Versions
import Icecream.Client.Build
import Icecream.Client.BuildRuns
import Icecream.Client.Copies
import Icecream.Client.MainRuns
