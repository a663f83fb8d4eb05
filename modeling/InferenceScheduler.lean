import InferenceScheduler.Parsers.VllmGrpc
import InferenceScheduler.PrefixCache.Hashing
import InferenceScheduler.PrefixCache.Match
import InferenceScheduler.PrefixCache.Speculative
import InferenceScheduler.RequestControl.CachedCandidates
import InferenceScheduler.RequestControl.ResponseQueues
import InferenceScheduler.Handlers.EndOfStream
import InferenceScheduler.Handlers.SessionAffinity
import InferenceScheduler.Registry.StaticBands
import InferenceScheduler.FlowControl.Shutdown
import InferenceScheduler.FlowControl.RoundRobin
import InferenceScheduler.FlowControl.DispatchCycle
import InferenceScheduler.FlowControl.Buffered
import InferenceScheduler.Registry.Agreement
import InferenceScheduler.Registry.LeaseProtocol
import InferenceScheduler.InFlight.Balance
import InferenceScheduler.InFlight.Signal
import InferenceScheduler.Queue.Heapify
import InferenceScheduler.Statistics.Capacity
import InferenceScheduler.Sidecar.NixlV2
import InferenceScheduler.Sidecar.PassThrough
import InferenceScheduler.Sidecar.Discarded
import InferenceScheduler.Scheduling.ActiveRequest
import InferenceScheduler.Scheduling.PrefixDecision
import InferenceScheduler.Eviction.EvictN
import InferenceScheduler.PredictedLatency.Maps
import InferenceScheduler.PredictedLatency.DecodeSampler
import InferenceScheduler.Queue.SloDeadline
import InferenceScheduler.Handlers.ModelName
import InferenceScheduler.Parsers.OpenAI
import InferenceScheduler.FlowControl.GlobalStrict
import InferenceScheduler.Datastore.ModelRewrite
import InferenceScheduler.Datastore.Reconcile
import InferenceScheduler.Parsers.RequestInput
import InferenceScheduler.RequestControl.WeightedModel
import InferenceScheduler.Scheduling.PrefixScores
import InferenceScheduler.Sidecar.EndpointHeaders
