import Fareward.Lock.Equiv.Queue
import Fareward.Sequence.Equiv.Allocator
import Fareward.Sequence.Equiv.Pruning
import Fareward.Sequence.Equiv.Range
import Fareward.Sequence.Protocol
import Fareward.Limiter.Equiv.TokenBucket
import Fareward.Limiter.Equiv.SubGrants
import Fareward.Limiter.Equiv.BudgetRow
import Fareward.Service.Equiv.Tracking
import Fareward.Client.Equiv.Request
import Fareward.Client.Equiv.Reader
import Fareward.Client.Equiv.Credits
import Fareward.Service.Equiv.Authorization
import Fareward.Client.Equiv.Locks
import Fareward.Limiter.Equiv.TwoRuns
import Fareward.Limiter.Equiv.Published
import Fareward.Limiter.Equiv.Ceilings
import Fareward.Bridge.Equiv.Token
import Fareward.Limiter.Equiv.Durable
import Fareward.Limiter.Equiv.Encodable
import Fareward.SipHash.Equiv.Hasher
import Fareward.Bridge.Equiv.Auth
import Fareward.Client.Equiv.RequestLog
import Fareward.Reqlog.Equiv.Protocol
import Fareward.Reqlog.Equiv.Writer
import Fareward.Bridge.Equiv.Leaks
import Fareward.Sysmetrics.Equiv.Writer
