import Envoy.Lib.WriteAt
import Envoy.Lib.Simulation
import Envoy.Buffer.Slice
import Envoy.Buffer.OwnedImpl
import Envoy.Buffer.Lemmas.OwnedImpl
import Envoy.Buffer.Refinement
import Envoy.Buffer.Watermark
import Envoy.Buffer.Lemmas.Watermark
import Envoy.Buffer.Account
import Envoy.Buffer.Accounting
import Envoy.Buffer.Lemmas.Ledger
import Envoy.Buffer.Lemmas.Account
import Envoy.Lib.FreeList
import Envoy.Lib.Inverse
import Envoy.Stats.Encoding
import Envoy.Stats.SymbolTable
import Envoy.Stats.Lemmas.Encoding
import Envoy.Stats.Lemmas.SymbolTable
import Envoy.Stats.RoundTrip
import Envoy.Stats.Store
import Envoy.Stats.Lemmas.Store
import Envoy.Stats.StatMerger
import Envoy.Config.DeltaSubscriptionState
import Envoy.Config.DeltaXds
import Envoy.Http.Utility
import Envoy.Config.XdsResource
import Envoy.Lib.Chunks
import Envoy.Grpc.Codec
import Envoy.Grpc.Framing
import Envoy.Grpc.Lemmas.Codec
import Envoy.Grpc.Stream
import Envoy.Common.TokenBucket
import Envoy.Lib.RateLimit
import Envoy.Common.AtomicTokenBucket
import Envoy.Common.Lemmas.AtomicTokenBucket
import Envoy.Lib.KeyedList
import Envoy.Event.ScaledRangeTimerManager
import Envoy.Event.ScaledTimerSpec
import Envoy.Event.Lemmas.ScaledRangeTimerManager
import Envoy.Event.Refinement
import Envoy.Lib.Decimal
import Envoy.Http.Cache.RangeUtils
import Envoy.Http.Cache.RangeSpec
import Envoy.Http.Cache.Lemmas.RangeUtils
import Envoy.Http.Cache.Refinement
import Envoy.Lib.Cumulative
import Envoy.Upstream.LoadBalancerBase
import Envoy.Upstream.Lemmas.LoadBalancerBase
import Envoy.Upstream.PriorityLoad
import Envoy.Upstream.RingHash
import Envoy.Http.Lemmas.PercentEncoding
import Envoy.Lib.Segments
import Envoy.Http.PathUtility
import Envoy.Common.StringUtil
import Envoy.Lib.Preference
import Envoy.Http.Compressor.CompressorFilter
import Envoy.Http.Compressor.Lemmas.CompressorFilter
import Envoy.Lib.LengthBuckets
import Envoy.Router.RouteMatcher
import Envoy.Router.VirtualHostSpec
import Envoy.Router.Lemmas.RouteMatcher
import Envoy.Lib.Lookahead
import Envoy.Lib.OrderedInsert
import Envoy.Upstream.EdfScheduler
import Envoy.Upstream.Lemmas.EdfScheduler
import Envoy.Lib.FirstFrom
import Envoy.Buffer.Search
import Envoy.Buffer.Lemmas.Search
import Envoy.Buffer.Lemmas.Read
import Envoy.Buffer.Lemmas.Reserve
import Envoy.Stats.Compare
import Envoy.Lib.RingBuffer
import Envoy.Buffer.SliceDeque
import Envoy.Buffer.Lemmas.SliceDeque
import Envoy.Lib.Intervals
import Envoy.Common.IntervalSet
import Envoy.Common.Lemmas.IntervalSet
import Envoy.Lib.LittleEndian
import Envoy.Common.BitArray
import Envoy.Common.Lemmas.BitArray
import Envoy.Lib.InPlace
import Envoy.Http.PathNormalizer
import Envoy.Http.PathNormalizationSpec
import Envoy.Http.Lemmas.PathNormalizer
import Envoy.Http.Lemmas.DotSegments
import Envoy.Http.Lemmas.NormalizePathUri
import Envoy.Http.ConfiguredNormalization
import Envoy.Http.Lemmas.DecodePass
import Envoy.Http.Lemmas.ConfiguredNormalizePathUri
import Envoy.Http.Lemmas.NormalForm
import Envoy.Http.Lemmas.Idempotence
import Envoy.Lib.Pacing
import Envoy.Upstream.EdfCreate
import Envoy.Upstream.Lemmas.EdfPacing
import Envoy.Http.Lemmas.Uri
import Envoy.Config.Lemmas.XdsResource
import Envoy.Config.Lemmas.DeltaXds
import Envoy.Lib.Stride
import Envoy.Upstream.Maglev
import Envoy.Upstream.Lemmas.Maglev
