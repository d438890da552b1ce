import AbkFido.PersistFacts
import AbkFido.Wrapping
import AbkFido.GateFacts
import AbkFido.Signing
import AbkFido.Approval
import AbkFido.Survive
import AbkFido.App.EditRuns
import AbkFido.App.PromptRuns
import AbkFido.App.SyncRuns
import AbkFido.HmacSecret
import AbkFido.Reset
import AbkFido.Clean
import AbkFido.Counter
import AbkFido.Cid
import AbkFido.App.Accept
import AbkFido.Arrival
import AbkFido.Reassembly
import AbkFido.Clients
import AbkFido.Allow
import AbkFido.Cancel
import AbkFido.App.BlobEdits
import AbkFido.App.Quiet
import AbkFido.App.Drain
import AbkFido.Agent.Backlog
import AbkFido.App.BridgeFacts
import AbkFido.App.ContextFacts
import AbkFido.Lan.Channel
import AbkFido.App.KeyArchiveFacts
import AbkFido.Lan.Decisions
import AbkFido.Transmit
import AbkFido.Restore
import AbkFido.Register
import AbkFido.App.Import
import AbkFido.Integers
import AbkFido.WriterBuffer
import AbkFido.Responses
import AbkFido.Skipping
import AbkFido.Signature
import AbkFido.Queue
import AbkFido.Vhid.Buffers
import AbkFido.App.StoredNames
import AbkFido.Scripts.Inject
import AbkFido.Lan.Requests
import AbkFido.App.Endpoint
import AbkFido.Agent.Uhid
import AbkFido.App.BridgeRequests
import AbkFido.App.RootScripts
import AbkFido.Login
import AbkFido.GadgetFacts
import AbkFido.Lan.Answers
import AbkFido.Lan.Relay
import AbkFido.Lan.Wire
import AbkFido.App.DecisionText
import AbkFido.App.ServiceLoop
