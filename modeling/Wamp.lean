import Wamp.Event
import Wamp.Failure.Payload
import Wamp.Message.Shape
import Wamp.Package
import Wamp.Peer
import Wamp.Proofs.Failure.Attachment
import Wamp.Proofs.Failure.Delimiting
import Wamp.Proofs.Failure.Description
import Wamp.Proofs.Failure.Display
import Wamp.Proofs.Failure.Issues
import Wamp.Proofs.Failure.Payload
import Wamp.Proofs.Message.Canonical
import Wamp.Proofs.Message.Delivery
import Wamp.Proofs.Message.Text
import Wamp.Proofs.Registry.Diagnostics
import Wamp.Proofs.Registry.Dispatch
import Wamp.Proofs.Registry.Registration
import Wamp.Proofs.Registry.Sealing
import Wamp.Proofs.Registry.Sharing
import Wamp.Proofs.Registry.Translation
import Wamp.Proofs.Registry.Validity
import Wamp.Proofs.Uri.Bookkeeping
import Wamp.Proofs.Uri.Confinement
import Wamp.Proofs.Uri.Language
import Wamp.Proofs.Uri.Matching
import Wamp.Proofs.Uri.Registering
import Wamp.Proofs.Uri.Replay
import Wamp.Proofs.Uri.Resolution
import Wamp.Proofs.Uri.Winner
import Wamp.Proofs.Value.Reading
import Wamp.Value.Order
