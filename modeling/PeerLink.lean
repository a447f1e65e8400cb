import PeerLink.Main
import PeerLink.Proofs.Sse.RoundTrip
import PeerLink.Proofs.Bridge.Beside
import PeerLink.Proofs.Bridge.Control
import PeerLink.Proofs.Bridge.Moves
import PeerLink.Proofs.Bridge.Course
import PeerLink.Proofs.Bridge.Schedule
import PeerLink.Proofs.Bridge.Launch
import PeerLink.Proofs.Bridge.Ownership
import PeerLink.Proofs.Bridge.Losses
import PeerLink.Proofs.Bridge.Hooks
import PeerLink.Proofs.Connection.Feed
import PeerLink.Proofs.Bridge.Stream
import PeerLink.Proofs.Bridge.Traffic
import PeerLink.Proofs.Bridge.Fanout
import PeerLink.Proofs.Bridge.Writes
import PeerLink.Proofs.Connection.Status
import PeerLink.Proofs.Bridge.Snapshot
import PeerLink.Proofs.Bridge.Jobs
import PeerLink.Proofs.Bridge.Workers
import PeerLink.Proofs.Bridge.Advance
import PeerLink.Proofs.Bridge.Cascade
import PeerLink.Proofs.Connection.Pace
import PeerLink.Proofs.Bridge.Pacing
import PeerLink.Proofs.Connection.Restart
import PeerLink.Proofs.Bridge.Restart
import PeerLink.Proofs.Bridge.Gains
import PeerLink.Proofs.Bridge.Accounts
import PeerLink.Proofs.Bridge.Attendance
import PeerLink.Proofs.Bridge.Waiting
import PeerLink.Proofs.Bridge.Horizon
import PeerLink.Proofs.Bridge.Seclusion
import PeerLink.Proofs.Bridge.Quiescence
import PeerLink.Proofs.Bridge.Stopping
import PeerLink.Proofs.Bridge.Desertion
import PeerLink.Proofs.Bridge.Closing
import PeerLink.Proofs.Number.Rounding
import PeerLink.Proofs.Number.Growth
import PeerLink.Proofs.Config.Ranges
import PeerLink.Proofs.Connection.Endurance
import PeerLink.Proofs.Bridge.Endurance
import PeerLink.Proofs.Bridge.Lateness
import PeerLink.Proofs.Bridge.Agreement
import PeerLink.Proofs.Bridge.Airing
import PeerLink.Proofs.Bridge.Pulse
import PeerLink.Proofs.Bridge.Postings
import PeerLink.Proofs.ItemTable
import PeerLink.Proofs.Bus.Expression
import PeerLink.Proofs.Bus.Families
import PeerLink.Proofs.Connection.Delays
import PeerLink.Proofs.Connection.Address
import PeerLink.Proofs.Connection.Request
import PeerLink.Proofs.Bridge.Requests
import PeerLink.Proofs.Json.Settings
import PeerLink.Proofs.Json.Numbers
import PeerLink.Proofs.Config.Files
import PeerLink.Proofs.Sse.Rounds
import PeerLink.Proofs.Peer.Sources
