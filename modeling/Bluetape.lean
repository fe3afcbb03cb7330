import Bluetape.Audit.History
import Bluetape.Batch.AtLeastOnce
import Bluetape.Batch.Atomic
import Bluetape.Cache.Exclusive
import Bluetape.Cache.Near
import Bluetape.Cache.StampedeWaiters
import Bluetape.Collections.Permutations
import Bluetape.Dynamodb.Accounting
import Bluetape.Jwt.JwksBounds
import Bluetape.Jwt.MongoCurrent
import Bluetape.Jwt.RedisRotation
import Bluetape.Jwt.Refinement
import Bluetape.Leader.DynamoExclusive
import Bluetape.Leader.Elections
import Bluetape.Leader.EtcdGenerations
import Bluetape.Leader.GroupElector
import Bluetape.Leader.GroupScripts
import Bluetape.Leader.Listings
import Bluetape.Leader.RedisElector
import Bluetape.Leader.RedisExclusive
import Bluetape.Leader.SqlElector
import Bluetape.Messaging.Callers
import Bluetape.Outbox.DeadLetter
import Bluetape.Outbox.FailureText
import Bluetape.RateLimit.RedisCalls
import Bluetape.RateLimit.RedisExpiry
import Bluetape.RateLimit.RedisPolling
import Bluetape.RateLimit.SqlAccounting
import Bluetape.RateLimit.TokenBucket
import Bluetape.Redis.FencedLock
import Bluetape.Redis.Semaphore
import Bluetape.RedisValue.Barrier
import Bluetape.RedisValue.CoordinationRuns
import Bluetape.RedisValue.LocalRuns
import Bluetape.RedisValue.Mutation
import Bluetape.Resilience.CircuitBreakerRuns
import Bluetape.Sqlkit.Transaction
import Bluetape.Sqlkit.Where
import Bluetape.State.Conflicts
import Bluetape.Stepfunctions.Wait
import Bluetape.Textsearch.Tokenizer
