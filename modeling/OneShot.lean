import OneShot.Machine.Lemmas
import OneShot.Machine.Reach
import OneShot.Request
import OneShot.Proofs.Steps
import OneShot.Proofs.Chain
import OneShot.Proofs.LeftBehind
import OneShot.Proofs.Routing
import OneShot.Proofs.StatusChanges
import OneShot.Proofs.SingleLine
import OneShot.Proofs.Accounts
import OneShot.Proofs.Walk
import OneShot.Proofs.Failures
import OneShot.Proofs.Hearing
import OneShot.Proofs.Crossing
import OneShot.Proofs.Usable
import OneShot.Proofs.Advancing
import OneShot.Proofs.Calling
import OneShot.Proofs.Disciplined
import OneShot.Proofs.Exceptions
import OneShot.Proofs.LateYields
import OneShot.Proofs.Canceling
import OneShot.Proofs.GivingBack
import OneShot.Proofs.Agreeing
import OneShot.Proofs.DeepHandlers
import OneShot.Proofs.Resuming
import OneShot.Proofs.Choosing
import OneShot.Proofs.Fates
import OneShot.Proofs.Commuting
import OneShot.Proofs.Nesting
import OneShot.Proofs.Enacting
