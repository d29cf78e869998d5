import Vigil.Service.Stop
import Vigil.Plan.Omission
import Vigil.Plan.Reference
import Vigil.Logs.Store
import Vigil.Logs.Reader
import Vigil.Overlord.Replan
import Vigil.Overlord.Deadlock
import Vigil.Overlord.Shutdown
import Vigil.Overlord.Wakeup
import Vigil.Overlord.Ordering
import Vigil.Overlord.Rest
import Vigil.Overlord.CheckFailure
import Vigil.Overlord.Checks
import Vigil.Overlord.Panics
import Vigil.Overlord.Intent
import Vigil.Overlord.Succession
import Vigil.Overlord.Actions
import Vigil.Overlord.Metrics
import Vigil.Overlord.Attended
import Vigil.Api.Handlers
import Vigil.Alert.Order
import Vigil.Alert.Outgoing
import Vigil.Alert.Attempts
import Vigil.Relay.TcpSink
import Vigil.Lib.Json
import Vigil.Logs.Follow
import Vigil.Relay.Source
import Vigil.Client.Follow
import Vigil.Reaper
import Vigil.Logs.Tail
import Vigil.Logs.Sequence
import Vigil.Client.Logs
import Vigil.Client.Filters
import Vigil.Relay.Pods
import Vigil.Relay.Requests
import Vigil.Relay.Streams
import Vigil.Duration.Grammar
import Vigil.Lib.Scanner
import Vigil.Process.Parse
import Vigil.Process.Quote
import Vigil.Process.Unquoted
import Vigil.Process.Section
import Vigil.Process.Credentials
import Vigil.Check.Hysteresis
import Vigil.Check.Identity
import Vigil.Check.Probes
import Vigil.Service.Aim
import Vigil.Service.Restart
import Vigil.Service.Backoff
import Vigil.Lib.IpAddr
import Vigil.NoProxy.Rules
import Vigil.Relay.Watch
import Vigil.Lib.Records
import Vigil.Lib.Rfc3339
import Vigil.Relay.PodLines
import Vigil.Relay.Retries
import Vigil.Relay.Sinks
import Vigil.Check.Mailboxes
import Vigil.Check.Waiting
import Vigil.Check.Listing
import Vigil.Check.Agreement
import Vigil.Check.Monitoring
import Vigil.Lib.Broadcast
import Vigil.Logs.Push
import Vigil.Plan.Load
import Vigil.Api.Lockout
import Vigil.Socket
import Vigil.Relay.Path
import Vigil.Service.Signals
