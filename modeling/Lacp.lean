import Lacp.Library.Guarded
import Lacp.Library.Fuel
import Lacp.Library.Layout
import Lacp.Library.Pairing
import Lacp.Library.Cyclic
import Lacp.Library.Session
import Lacp.Library.Words
import Lacp.Rx
import Lacp.Election
import Lacp.Mux
import Lacp.Tx
import Lacp.Frame
import Lacp.Sys
import Lacp.Termination
import Lacp.Trunk
import Lacp.Effects
import Lacp.Writes
import Lacp.Coherence
import Lacp.Quiet
import Lacp.Preservation
import Lacp.Calls
import Lacp.Membership
import Lacp.Reachability
import Lacp.PortWrites
import Lacp.History
import Lacp.Forwarding
import Lacp.Readiness
import Lacp.Totality
import Lacp.Database
import Lacp.Settings
import Lacp.Transmission
import Lacp.RateLimit
import Lacp.Period
import Lacp.PortStates
import Lacp.Homogeneity
import Lacp.Keys
import Lacp.Classes
import Lacp.Advertising
import Lacp.Attachment
import Lacp.Masters
import Lacp.Defaults
import Lacp.Freshness
import Lacp.Isolation
import Lacp.TwoParty
import Lacp.Ranking
import Lacp.Reception
import Lacp.Silence
import Lacp.Leaving
import Lacp.Joining
import Lacp.Decoding
import Lacp.Inventory
import Lacp.Manager
import Lacp.Topology
import Lacp.Ring
import Lacp.CriticalSection
import Lacp.GroupCounts
import Lacp.Reporting
import Lacp.SystemUpdate
import Lacp.Priorities
import Lacp.Aggregatability
import Lacp.FastestMaster
import Lacp.PortNames
import Lacp.Farewell
import Lacp.Disabling
import Lacp.Bridge
import Lacp.Network
import Lacp.Notices
import Lacp.Directory
import Lacp.LinkStates
import Lacp.Hearing
import Lacp.Attending
import Lacp.Registry
import Lacp.Consistency
import Lacp.NetworkSafety
import Lacp.Departures
import Lacp.NetworkProgress
import Lacp.StateReports
import Lacp.SystemSettings
import Lacp.CommandLine
import Lacp.Prompt
import Lacp.Console
import Lacp.Settling
import Lacp.Handshake
