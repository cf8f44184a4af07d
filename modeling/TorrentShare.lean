import TorrentShare.Program.Basic
import TorrentShare.Program.Threads
import TorrentShare.Text
import TorrentShare.Tracker.Store
import TorrentShare.Tracker.Calls
import TorrentShare.Tracker.Handlers
import TorrentShare.Tracker.Session
import TorrentShare.Replication.Pushes
import TorrentShare.Replication.Pair
import TorrentShare.Tracker.Host
import TorrentShare.Tracker.Locking
import TorrentShare.Tracker.Membership
import TorrentShare.Replication.Snapshots
import TorrentShare.Tracker.Writes
import TorrentShare.Tracker.Groups
import TorrentShare.Replication.LiveRequest
import TorrentShare.Program.Uniform
import TorrentShare.Tracker.Lookups
import TorrentShare.Replication.OneTracker
import TorrentShare.Replication.Crossing
import TorrentShare.Replication.AcceptLoops
import TorrentShare.Program.Records
import TorrentShare.Tracker.Effects
import TorrentShare.Tracker.FileNames
import TorrentShare.Tracker.Runs
import TorrentShare.Tracker.Sharing
import TorrentShare.Tracker.Queries
import TorrentShare.Tracker.Seeders
import TorrentShare.Tracker.Provenance
import TorrentShare.Tracker.Applicants
import TorrentShare.Program.Faults
import TorrentShare.Tracker.Entities
import TorrentShare.Tracker.WellFormed
import TorrentShare.Tracker.Indexes
import TorrentShare.Tracker.Reloading
import TorrentShare.Program.FirstCome
import TorrentShare.Tracker.Registration
import TorrentShare.Peer.Chunks
import TorrentShare.Peer.Download
import TorrentShare.Peer.Completion
import TorrentShare.Peer.Verified
import TorrentShare.Peer.ChunkNumbers
import TorrentShare.Peer.Advertised
import TorrentShare.Tracker.Logins
import TorrentShare.Tracker.Refusals
import TorrentShare.Tracker.Visibility
import TorrentShare.Program.Framing
import TorrentShare.Tracker.Credentials
import TorrentShare.Peer.Replies
import TorrentShare.Tracker.Descriptors
import TorrentShare.Tracker.Crashes
import TorrentShare.Replication.Startup
import TorrentShare.Tracker.Appends
import TorrentShare.Peer.Received
import TorrentShare.Program.Retries
import TorrentShare.Peer.Attempts
import TorrentShare.Peer.Choice
import TorrentShare.Peer.Scheduling
import TorrentShare.Program.Blocks
import TorrentShare.Tracker.Filtering
import TorrentShare.Replication.SyncRun
import TorrentShare.Peer.Hashing
import TorrentShare.Peer.Sizes
import TorrentShare.Peer.Delivery
import TorrentShare.Peer.AnyReply
import TorrentShare.Peer.Notified
import TorrentShare.Tracker.SeederList
import TorrentShare.Tracker.Addresses
import TorrentShare.Tracker.Served
import TorrentShare.Program.Fragments
import TorrentShare.Peer.Frames
import TorrentShare.Program.Histories
import TorrentShare.Peer.ChunkThreads
import TorrentShare.Peer.Requests
import TorrentShare.Peer.Serving
import TorrentShare.Peer.CommandLines
import TorrentShare.Tracker.Interludes
import TorrentShare.Tracker.Storage
import TorrentShare.Tracker.OpenSyncs
import TorrentShare.Tracker.Unstored
import TorrentShare.Program.Services
import TorrentShare.Program.Tables
import TorrentShare.Program.Total
import TorrentShare.Registry.Model
import TorrentShare.Registry.Sound
import TorrentShare.Registry.Directory
import TorrentShare.Registry.Records
import TorrentShare.Registry.Refinement
import TorrentShare.Registry.Sharing
import TorrentShare.Registry.Runs
import TorrentShare.Program.Since
import TorrentShare.Registry.Frames
import TorrentShare.Registry.Histories
import TorrentShare.Registry.Transfers
import TorrentShare.Registry.Interference
import TorrentShare.Registry.Repetition
import TorrentShare.Registry.Users
import TorrentShare.System.Messages
import TorrentShare.Registry.Warrants
import TorrentShare.System.Network
import TorrentShare.Registry.Contents
import TorrentShare.System.Downloads
import TorrentShare.Replication.Failover
