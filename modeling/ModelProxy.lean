import ModelProxy.BodyArrival
import ModelProxy.BoundedOutput
import ModelProxy.BreakerTrials
import ModelProxy.CanonicalAgreement
import ModelProxy.CanonicalReadability
import ModelProxy.ClassFairness
import ModelProxy.EditsKeepMasks
import ModelProxy.EvictionEvidence
import ModelProxy.FitSearch
import ModelProxy.Glob
import ModelProxy.IpLiterals
import ModelProxy.MetricsQuery
import ModelProxy.OpaqueOutput
import ModelProxy.PathSafety
import ModelProxy.PlacementSearch
import ModelProxy.PlanRules
import ModelProxy.ProviderPricing
import ModelProxy.QuotedArguments
import ModelProxy.Resampler
import ModelProxy.ResponsesRoundTrip
import ModelProxy.RoutingVerdicts
import ModelProxy.SpendCap
import ModelProxy.SseChunking
import ModelProxy.StoreRuns
import ModelProxy.StreamedMasking
import ModelProxy.SurrogateRepair
import ModelProxy.UpdateRecovery
import ModelProxy.WindowedMasking
