import NuraOS.Proofs.UpdateRecovery
import NuraOS.Proofs.StartPlans
import NuraOS.Proofs.UnitSupervision
import NuraOS.Proofs.JournalRetention
import NuraOS.Proofs.PackageOwnership
import NuraOS.Proofs.ServiceConfinement
import NuraOS.ModelPool.Pool
import NuraOS.Proofs.LogRedaction
import NuraOS.CrashCap.Capture
import NuraOS.Gateway.RateLimit
import NuraOS.Proofs.AnthropicDecoding
import NuraOS.Proofs.OpenAiDecoding
import NuraOS.Proofs.SecretFlow
import NuraOS.Proofs.DeltaRoundTrip
import NuraOS.ConfigMgr.Store
import NuraOS.Proofs.StatusFidelity
import NuraOS.Agent.Conversation
import NuraOS.Proofs.TruncatedStreams
import NuraOS.Agent.Config
import NuraOS.Compliance.Policy
import NuraOS.CircuitBreaker.Breaker
import NuraOS.Proofs.BackupRoundTrip
import NuraOS.Discovery.Mdns
import NuraOS.Watchdog.Goroutines
import NuraOS.EventBus.Bus
import NuraOS.Proofs.RetentionRuns
import NuraOS.AtomicFile.Write
