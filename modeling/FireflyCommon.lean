import FireflyCommon.EventStreams.Spec
import FireflyCommon.EventStreams.Persistence
import FireflyCommon.EventStreams.World
import FireflyCommon.EventStreams.Prog
import FireflyCommon.EventStreams.Manager
import FireflyCommon.EventStreams.WellFormed
import FireflyCommon.EventStreams.Operations
import FireflyCommon.EventStreams.Reset
import FireflyCommon.EventStreams.Idempotence
import FireflyCommon.EventStreams.Agreement
import FireflyCommon.EventStreams.Reads
import FireflyCommon.EventStreams.Service
import FireflyCommon.EventStreams.Failures
import FireflyCommon.EventStreams.Startup
import FireflyCommon.EventStreams.Restart
import FireflyCommon.EventStreams.Interleaving
import FireflyCommon.EventStreams.Activation
import FireflyCommon.EventStreams.Isolation
import FireflyCommon.EventStreams.Linearizable
import FireflyCommon.EventStreams.Concurrency
import FireflyCommon.EventStreams.Footprint
import FireflyCommon.EventStreams.Race
import FireflyCommon.FFTypes.Json
import FireflyCommon.FFTypes.RoundTrip
import FireflyCommon.FFTypes.Utf8
import FireflyCommon.FFTypes.FFI
