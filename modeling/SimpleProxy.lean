import SimpleProxy.Lib.Prog
import SimpleProxy.Lib.Loop
import SimpleProxy.Lib.System
import SimpleProxy.Lib.KeyValue
import SimpleProxy.Lib.CString
import SimpleProxy.Lib.Blocks
import SimpleProxy.Lib.Lines
import SimpleProxy.Lib.Http
import SimpleProxy.Lib.Stores
import SimpleProxy.Lib.Prints
import SimpleProxy.Lib.Files
import SimpleProxy.Lib.Sql
import SimpleProxy.Lib.Base64
import SimpleProxy.Lib.Heap
import SimpleProxy.Core.User
import SimpleProxy.Core.Migration
import SimpleProxy.Core.Base64
import SimpleProxy.Core.HashMap
import SimpleProxy.Core.HeapMap
import SimpleProxy.Core.Config
import SimpleProxy.Main.Calls
import SimpleProxy.Main.Client
import SimpleProxy.Main.Util
import SimpleProxy.Main.Connection
import SimpleProxy.Main.Rounds
import SimpleProxy.Main.Proxy
import SimpleProxy.Main.LoopHandlers
import SimpleProxy.Main.RunLoop
import SimpleProxy.Main.Auth
import SimpleProxy.Main.Pointers
import SimpleProxy.ProxyConfig.Commands
import SimpleProxy.ProxyConfig.Setup
import SimpleProxy.ProxyConfig.Tables
import SimpleProxy.ProxyConfig.Program
import SimpleProxy.Main.Start
import SimpleProxy.Logic.Moves
import SimpleProxy.Logic.Lifecycle
import SimpleProxy.Logic.Kernel
import SimpleProxy.Logic.Acts
import SimpleProxy.Logic.Session
import SimpleProxy.Logic.Transfer
import SimpleProxy.Logic.Rounds
import SimpleProxy.Logic.Forward
import SimpleProxy.Logic.Stages
import SimpleProxy.Logic.Request
import SimpleProxy.Logic.Endpoint
import SimpleProxy.Logic.Headers
import SimpleProxy.Logic.Pointers
import SimpleProxy.Logic.Reading
import SimpleProxy.Logic.Watches
import SimpleProxy.Logic.Registry
import SimpleProxy.Logic.Steps
import SimpleProxy.Logic.Progress
import SimpleProxy.Logic.Replies
import SimpleProxy.Logic.Interest
import SimpleProxy.Logic.Activity
import SimpleProxy.Logic.Credentials
import SimpleProxy.Logic.Settings
import SimpleProxy.Logic.Rewrites
import SimpleProxy.Logic.Descriptors
import SimpleProxy.Logic.HeapMap
import SimpleProxy.Logic.Database
import SimpleProxy.Logic.Host
import SimpleProxy.Logic.Server
import SimpleProxy.Logic.Leaks
import SimpleProxy.Logic.Protocol
import SimpleProxy.Logic.Deeds
import SimpleProxy.Logic.Start
import SimpleProxy.Theorems.Relay
import SimpleProxy.Theorems.Rounds
import SimpleProxy.Theorems.Access
import SimpleProxy.Theorems.Tunnel
import SimpleProxy.Theorems.Connecting
import SimpleProxy.Theorems.Lifetime
import SimpleProxy.Theorems.Descriptors
import SimpleProxy.Theorems.Queries
import SimpleProxy.Theorems.Migration
import SimpleProxy.Theorems.HashMap
import SimpleProxy.Theorems.Slots
import SimpleProxy.Theorems.Reading
import SimpleProxy.Theorems.Phases
import SimpleProxy.Theorems.Origin
import SimpleProxy.Theorems.Endpoint
import SimpleProxy.Theorems.Headers
import SimpleProxy.Theorems.Pointers
import SimpleProxy.Theorems.Spelling
import SimpleProxy.Theorems.HalfClosed
import SimpleProxy.Theorems.Failures
import SimpleProxy.Theorems.Pieces
import SimpleProxy.Theorems.Replies
import SimpleProxy.Theorems.Reclaim
import SimpleProxy.Theorems.Silence
import SimpleProxy.Theorems.Teardown
import SimpleProxy.Theorems.Idle
import SimpleProxy.Theorems.Cache
import SimpleProxy.Theorems.Credentials
import SimpleProxy.Theorems.Accounts
import SimpleProxy.Theorems.Codec
import SimpleProxy.Theorems.ConfigFile
import SimpleProxy.Theorems.Prompts
import SimpleProxy.Theorems.HeapMap
import SimpleProxy.Theorems.Tool
import SimpleProxy.Theorems.Book
import SimpleProxy.Theorems.Revocation
import SimpleProxy.Theorems.Leaks
import SimpleProxy.Logic.Wakeups
import SimpleProxy.Theorems.Wakeups
import SimpleProxy.Logic.Speech
import SimpleProxy.Theorems.Protocol
import SimpleProxy.Theorems.Site
import SimpleProxy.Theorems.Start
import SimpleProxy.Logic.Setup
import SimpleProxy.Theorems.Setup
