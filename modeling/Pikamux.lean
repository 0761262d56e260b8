import Pikamux.Claude.Equivalence
import Pikamux.Claude.Pages
import Pikamux.Assistant.Budget
import Pikamux.Assistant.Allowance
import Pikamux.Assistant.Forgotten
import Pikamux.Update.Safety
import Pikamux.Native.Fresh
import Pikamux.Assistant.Succession
import Pikamux.Assistant.Outbox
import Pikamux.Assistant.Meaning
import Pikamux.Assistant.Protected
import Pikamux.Assistant.Approval
import Pikamux.Board.Ending
import Pikamux.Providers.Lifecycle
import Pikamux.Processes.Panes
import Pikamux.Providers.Scan
import Pikamux.History.Pages
import Pikamux.Channel.Wakes
import Pikamux.Fleet.Schedule
import Pikamux.Names.Resolve
import Pikamux.Mobile.Remote
import Pikamux.Launch.Receipts
import Pikamux.Fleet.Honest
import Pikamux.Terminal.Filters
import Pikamux.Feed.Frames
import Pikamux.Fleet.Side
import Pikamux.Client.Route
import Pikamux.Tmux.Threads
import Pikamux.Tmux.Companion
import Pikamux.Preview.Tail
import Pikamux.Consult.Frames
import Pikamux.Mobile.SSHWire
import Pikamux.Mobile.PairingKeys
import Pikamux.Assistant.Service
import Pikamux.Assistant.Provider
import Pikamux.Experts.Refresh
import Pikamux.Board.Keys
import Pikamux.Files.Syntax
import Pikamux.Terminal.Presenter
import Pikamux.Setup.Atomic
import Pikamux.Assistant.Retrieval
