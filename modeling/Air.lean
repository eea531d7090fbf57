import Air.Lts.Run
import Air.Lts.RowLock
import Air.Lts.Outbox
import Air.Control.Except
import Air.Common.Ratchet
import Air.Qs.Queue
import Air.Client.QueueRatchets
import Air.Qs.Delivery
import Air.Qs.Enqueue
import Air.Client.ProcessQs
import Air.RateLimiter.Basic
import Air.RateLimiter.Concurrent
import Air.AuthService.PrivacyPass
import Air.Chats.Status
import Air.Ds.Handlers
import Air.Mls.Tree
import Air.Mls.Commit
import Air.Ds.MemberProfiles
import Air.Ds.Apq
import Air.Ds.ProfileRuns
import Air.Arith.RoundUp
import Air.Common.Padme
import Air.Common.Padded
import Air.Client.Operation
import Air.Data.Ring
import Air.Client.FileRingBuffer
import Air.Data.Codec
import Air.Common.Identifiers
import Air.Chats.Pagination
import Air.Client.MarkAsRead
import Air.Markdown.Url
import Air.Markdown.Elements
import Air.Markdown.Parse
import Air.Control.StateExcept
import Air.Markdown.Progress
import Air.Markdown.Links
import Air.Data.ListEdit
import Air.Chats.Flights
import Air.Chats.MessageList
import Air.Chats.MessageListMirror
import Air.Data.Extract
import Air.Chats.MessageListContext
import Air.AuthService.UsernameQueue
import Air.AuthService.ConnectionPackages
import Air.Common.Username
import Air.Client.UsernameSuggestions
