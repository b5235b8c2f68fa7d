import DocFerry.Lib.Bytes
import DocFerry.Lib.Loop
import DocFerry.Lib.Prog
import DocFerry.Proof.Feed
import DocFerry.Proof.Clear
import DocFerry.Proof.Terminate
import DocFerry.Proof.Requests
import DocFerry.Proof.Dispatch
import DocFerry.Proof.Server
import DocFerry.Proof.Listener
import DocFerry.Proof.Runs
import DocFerry.Proof.Channels
import DocFerry.Proof.Sending
import DocFerry.Proof.Replies
import DocFerry.Proof.Quiet
import DocFerry.Proof.Answers
import DocFerry.Lib.Fifo
import DocFerry.Proof.Memory
import DocFerry.Proof.WriteOnly
import DocFerry.Proof.Message
import DocFerry.Proof.Complete
import DocFerry.Proof.Value
import DocFerry.Proof.ByteOrder
import DocFerry.Proof.Closing
import DocFerry.Proof.Isolation
import DocFerry.Proof.Streams
import DocFerry.Proof.Recover
import DocFerry.Proof.Accounts
import DocFerry.Proof.Still
import DocFerry.Proof.Leaks
import DocFerry.Proof.Backing
import DocFerry.Lib.Path
import DocFerry.Proof.Directory
import DocFerry.Proof.Refused
import DocFerry.Proof.Probe
import DocFerry.Proof.Blocking
import DocFerry.Proof.FdRange
import DocFerry.Proof.Construct
import DocFerry.Proof.SendAll
import DocFerry.Lib.Inet
import DocFerry.Model.InetPton
import DocFerry.Proof.Hosts
import DocFerry.Proof.Destroy
import DocFerry.Proof.Indices
import DocFerry.Proof.Stores
import DocFerry.Lib.Scan
import DocFerry.Spec.Session
import DocFerry.Proof.Filling
import DocFerry.Proof.Session
import DocFerry.Proof.Aside
import DocFerry.Proof.Events
import DocFerry.Proof.Sessions
import DocFerry.Proof.Archive
import DocFerry.Model.Client
import DocFerry.Proof.Conversation
import DocFerry.Proof.Crash
import DocFerry.Proof.Listens
import DocFerry.Proof.Rounds
import DocFerry.Model.Main
import DocFerry.Proof.Main
import DocFerry.Proof.Traces
import DocFerry.Proof.Acks
