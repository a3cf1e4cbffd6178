import QService.Delivery
import QService.Challenge
import QService.Md5
import QService.BlockHash
import QService.BufferCalls
import QService.MoveBefore
import QService.ReplaceDepth
import QService.Rewriting
import QService.Zlib
import QService.TableFile
import QService.RSA
import QService.AES
import QService.HashCRC
import QService.Crc
import QService.UrlCode
import QService.Replace
import QService.Chunks
import QService.ByteOrder
import QService.Framing
import QService.Runs
import QService.Handles
import QService.FirstMatch
import QService.CInt
import QService.Host
import QService.QString
import QService.Base64
import QService.BufferMgr
import QService.Session
import QService.TcpParser
import QService.TcpDispatch
import QService.WebSockParser
import QService.ParseBounds
import QService.WebSockHead
import QService.ShakeHands
import QService.WebSockDispatch
import QService.WebSockRounds
import QService.WebSockReassembly
import QService.Isolation
import QService.WebSockConnection
import QService.Continuations
import QService.HandshakeVerdict
import QService.TcpProgress
import QService.ObjPool
import QService.ThreadPool
import QService.SockPairEvent
import QService.Snowflake
import QService.LogStream
import QService.LogThreads
import QService.SessionManager
import QService.SessionLife
import QService.Listeners
import QService.LuaSession
import QService.Scripts
import QService.SockClose
import QService.LinkOther
import QService.LinkNames
import QService.LinkStatus
import QService.CommEncrypt
import QService.ClientEncrypt
import QService.LuaBinary.Binary
import QService.LuaBinary.Sequence
import QService.LuaBinary.Struct
import QService.LuaBinary.StructCodec
import QService.TimeWheel.Model
import QService.TimeWheel.Clock
import QService.TimeWheel.Invariant
import QService.TimeWheel.Callbacks
import QService.TimeWheel.Turns
import QService.TimeWheel.Firing
import QService.TimeWheel.Positions
import QService.TimeWheel.Finished
import QService.Ini.Store
import QService.Ini.File
import QService.Ini.Reload
import QService.Trie
import QService.Filter
import QService.LuaBinary.Layout
import QService.LuaBinary.Confined
import QService.LuaBinary.Truncated
import QService.Double
import QService.TimerTick
import QService.TimeWheel.Ghost
import QService.TimeWheel.Reschedule
import QService.TimeWheel.Moves
import QService.TimeWheel.LifeCycle
import QService.QTime
import QService.LogFile
import QService.RWLock
import QService.DBLoger
import QService.EventChannel
import QService.Rijndael.Blocks
import QService.Rijndael.Setup
